import LetPoly.Store.Traversal

namespace LetPoly

inductive UnifyError
  | mismatch (expected found : Ty)
  | recursive (id : Int) (type : Ty)
  | fault (f : Fault)
  | cyclic
deriving Repr

inductive Obligation
  | equal (a b : Ty)
  | clash
  | fault (f : Fault)

namespace Obligation

def ofLists (as bs : List Ty) : List Obligation :=
  if as.length = bs.length then List.zipWith equal as bs else [clash]

def ofField (other : Index Ty) : String × Ty → Obligation
  | (_, .missing _) => fault .missingType
  | (label, t) =>
    match other.get? label with
    | none => clash
    | some (.missing _) => fault .missingType
    | some u => equal t u

/-- Makes two rows equal, label by label in increasing order. Rows are closed, so both must have
    the same labels. A row with missing fields is equal to itself only. -/
def ofRows (a b : Row) : List Obligation :=
  if a.marks.any b.marks.contains then []
  else if a.fields.size = b.fields.size then a.fields.entries.map (ofField b.fields) else [clash]

def ofTops : Ty → Ty → List Obligation
  | .missing _, .missing _ => []
  | .const a, .const b => if a.same b then [] else [clash]
  | .app a as, .app b bs => if a.same b then ofLists as bs else [clash]
  | .fn ps r, .fn qs q => ofLists ps qs ++ [equal r q]
  | .tuple as, .tuple bs => ofLists as bs
  | .record a, .record b => ofRows a b
  | .signature a, .signature b => ofRows a b
  | _, _ => [clash]

end Obligation

namespace Store

def unbound? (s : Store) : Ty → Option (Nat × Int)
  | .cell ref =>
    match s.state ref with
    | .unbound level => some (ref, level)
    | _ => none
  | _ => none

/-- Binds an unbound variable, unless it occurs in the type. All variables of the type come down
    to its level first. -/
def bind (s : Store) (ref : Nat) (level : Int) (t : Ty) : Store × Option UnifyError :=
  let id := (s.cell ref).id
  if s.occurs id t then (s, some (.recursive id t))
  else
    let lowered := s.adjustLevels level t
    match lowered.setLink ref t with
    | .ok linked => (linked, none)
    | .error f => (lowered, some (.fault f))

def discharge (step : Store → Ty → Ty → Store × Option UnifyError) (clash : UnifyError) :
    Store → List Obligation → Store × Option UnifyError
  | s, [] => (s, none)
  | s, .equal a b :: rest =>
    match step s a b with
    | (s, none) => discharge step clash s rest
    | (s, some e) => (s, some e)
  | s, .clash :: _ => (s, some clash)
  | s, .fault f :: _ => (s, some (.fault f))

def unifyWithin (clash : UnifyError) : Nat → Store → Ty → Ty → Store × Option UnifyError
  | 0, s, _, _ => (s, some .cyclic)
  | depth + 1, s, a, b =>
    let a := s.head a
    let b := s.head b
    match s.unbound? a, s.unbound? b with
    | some (ref, level), some (ref', _) => if ref = ref' then (s, none) else s.bind ref level b
    | some (ref, level), none => s.bind ref level b
    | none, some (ref, level) => s.bind ref level a
    | none, none =>
      match a, b with
      | .cell ref, .cell ref' =>
        if (s.cell ref).id = (s.cell ref').id then (s, none) else (s, some clash)
      | a, b => discharge (unifyWithin clash depth) clash s (Obligation.ofTops a b)

def weight (s : Store) : Nat :=
  s.cells.toList.foldr (fun cell n => cell.state.size + n) 0

/-- Constructors that a path can pass from one of two types downwards: it enters a cell at most
    once, and what it passes between two cells is written in the store or in the types. -/
def unifyDepth (s : Store) (a b : Ty) : Nat :=
  (s.size + 1) * (s.weight + a.size + b.size) + 1

/-- Makes two types equal by binding unbound variables in them. A mismatch names the two types
    as they were given, and an occurs check that fails leaves its variable unbound. -/
def unify (s : Store) (a b : Ty) : Store × Option UnifyError :=
  unifyWithin (.mismatch a b) (s.unifyDepth a b) s a b

end Store

end LetPoly
