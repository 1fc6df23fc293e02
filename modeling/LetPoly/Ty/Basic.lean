import LetPoly.Index

namespace LetPoly

structure DeclName where
  name : String
  home : String := ""
  isPublic : Bool := true
deriving DecidableEq, Repr

def DeclName.same (a b : DeclName) : Bool :=
  a.home = b.home && a.name = b.name

/-- A type over the variable cells of a store. A cell is a reference, so that all types which hold
    it see what becomes of it. `missing` stands where no type was given, and a field that is missing
    has a mark which tells its row from all others. -/
inductive Ty
  | missing (mark : Nat := 0)
  | cell (ref : Nat)
  | const (decl : DeclName)
  | app (decl : DeclName) (args : List Ty)
  | tuple (elems : List Ty)
  | fn (params : List Ty) (result : Ty)
  | record (row : List (String × Ty))
  | signature (row : List (String × Ty))
deriving Repr, BEq, Inhabited

abbrev Row := List (String × Ty)

/-- The fields of a row by label. The leftmost field of a label is the visible one. -/
def Row.fields (row : Row) : Index Ty := Index.ofList row

def Row.marks (row : Row) : List Nat :=
  row.filterMap fun
    | (_, .missing (mark + 1)) => some mark
    | _ => none

inductive Leaf
  | missing (mark : Nat)
  | cell (ref : Nat)
deriving DecidableEq, Repr

namespace Ty

def int : Ty := .const { name := "Int" }

def float : Ty := .const { name := "Float" }

def atom : Ty := .const { name := "Atom" }

def string : Ty := .const { name := "String" }

def list (elem : Ty) : Ty := .app { name := "List" } [elem]

def isMissing : Ty → Bool
  | .missing _ => true
  | _ => false

mutual

def leaves : Ty → List Leaf
  | .missing mark => [.missing mark]
  | .cell ref => [.cell ref]
  | .const _ => []
  | .app _ args => leavesOfList args
  | .tuple elems => leavesOfList elems
  | .fn params result => leavesOfList params ++ result.leaves
  | .record row => leavesOfRow row
  | .signature row => leavesOfRow row

def leavesOfList : List Ty → List Leaf
  | [] => []
  | t :: ts => t.leaves ++ leavesOfList ts

def leavesOfRow : List (String × Ty) → List Leaf
  | [] => []
  | (_, t) :: row => t.leaves ++ leavesOfRow row

end

mutual

def replaceM {m : Type → Type} [Monad m] (f : Leaf → m Ty) : Ty → m Ty
  | .missing mark => f (.missing mark)
  | .cell ref => f (.cell ref)
  | .const decl => pure (.const decl)
  | .app decl args => do return .app decl (← replaceListM f args)
  | .tuple elems => do return .tuple (← replaceListM f elems)
  | .fn params result => do
    let params ← replaceListM f params
    return .fn params (← result.replaceM f)
  | .record row => do return .record (← replaceRowM f row)
  | .signature row => do return .signature (← replaceRowM f row)

def replaceListM {m : Type → Type} [Monad m] (f : Leaf → m Ty) : List Ty → m (List Ty)
  | [] => pure []
  | t :: ts => do
    let t ← t.replaceM f
    return t :: (← replaceListM f ts)

def replaceRowM {m : Type → Type} [Monad m] (f : Leaf → m Ty) :
    List (String × Ty) → m (List (String × Ty))
  | [] => pure []
  | (label, t) :: row => do
    let t ← t.replaceM f
    return (label, t) :: (← replaceRowM f row)

end

mutual

def size : Ty → Nat
  | .missing _ => 1
  | .cell _ => 1
  | .const _ => 1
  | .app _ args => sizeOfList args + 1
  | .tuple elems => sizeOfList elems + 1
  | .fn params result => sizeOfList params + result.size + 1
  | .record row => sizeOfRow row + 1
  | .signature row => sizeOfRow row + 1

def sizeOfList : List Ty → Nat
  | [] => 0
  | t :: ts => t.size + sizeOfList ts

def sizeOfRow : List (String × Ty) → Nat
  | [] => 0
  | (_, t) :: row => t.size + sizeOfRow row

end

end Ty

def Leaf.toTy : Leaf → Ty
  | .missing mark => .missing mark
  | .cell ref => .cell ref

end LetPoly
