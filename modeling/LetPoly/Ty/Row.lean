import LetPoly.Fault
import LetPoly.Ty.Basic

namespace LetPoly

namespace Row

/-- Shows the fields to a visitor from left to right, until it has seen enough. -/
def visit {σ : Type} (f : String → Ty → σ → σ × Bool) : Row → σ → σ
  | [], seen => seen
  | (label, t) :: row, seen =>
    match f label t seen with
    | (seen, true) => visit f row seen
    | (seen, false) => seen

def mapM {m : Type → Type} [Monad m] (f : Ty → m Ty) : Row → m Row
  | [] => pure []
  | (label, t) :: row => do
    let t ← f t
    return (label, t) :: (← mapM f row)

def mapTypes (f : Ty → Ty) (row : Row) : Row := Id.run (mapM f row)

end Row

namespace Index

def hasMissing (index : Index Ty) : Bool := index.entries.any fun entry => entry.2.isMissing

def visitFrom {σ : Type} (f : String → Ty → σ → σ × Bool) :
    List (String × Ty) → σ → Except Fault σ
  | [], seen => .ok seen
  | (name, t) :: rest, seen =>
    if t.isMissing then .error .missingType
    else
      match f name t seen with
      | (seen, true) => visitFrom f rest seen
      | (seen, false) => .ok seen

/-- Shows the entries to a visitor in the order of their names, until it has seen enough. A missing
    type can be put into an index, but it cannot be shown. -/
def visit {σ : Type} (index : Index Ty) (f : String → Ty → σ → σ × Bool) (seen : σ) :
    Except Fault σ :=
  visitFrom f index.entries seen

/-- The names, which are read along with their types. -/
def readNames (index : Index Ty) : Except Fault (List String) :=
  index.visit (fun name _ seen => (seen ++ [name], true)) []

def read? (index : Index Ty) (name : String) : Except Fault (Option Ty) :=
  let found := index.get? name
  if found.any Ty.isMissing then .error .missingType else .ok found

end Index

end LetPoly
