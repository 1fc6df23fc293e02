import LetPoly.Fault
import LetPoly.Ty.Basic

namespace LetPoly

def genericLevel : Int := 2147483647

def linkLevel : Int := -2147483648

inductive VarState
  | unbound (level : Int)
  | generic
  | linked (target : Ty)
deriving Repr, BEq, Inhabited

namespace VarState

/-- The state of a variable made at a level. The two marked levels make no unbound variable. -/
def ofLevel (level : Int) : VarState :=
  if level = genericLevel then .generic
  else if level = linkLevel then .linked .missing
  else .unbound level

def level : VarState → Int
  | .unbound level => level
  | .generic => genericLevel
  | .linked _ => linkLevel

def size : VarState → Nat
  | .linked target => target.size
  | _ => 0

end VarState

structure Cell where
  id : Int
  state : VarState
deriving Repr, BEq, Inhabited

/-- All type variables, in the order they were made. Types refer to them by position. `marks` counts
    the marks that missing fields have been given. -/
structure Store where
  cells : Array Cell := #[]
  marks : Nat := 0
deriving Repr

namespace Store

def size (s : Store) : Nat := s.cells.size

/-- The cell at a position. A position outside the store reads as a rigid variable. -/
def cell (s : Store) (ref : Nat) : Cell :=
  s.cells[ref]?.getD ⟨0, .generic⟩

def state (s : Store) (ref : Nat) : VarState := (s.cell ref).state

def setState (s : Store) (ref : Nat) (state : VarState) : Store :=
  { s with cells := s.cells.modify ref fun cell => { cell with state } }

theorem size_setState (s : Store) (ref : Nat) (state : VarState) :
    (s.setState ref state).size = s.size := by
  simp [size, setState]

theorem cell_setState_ne (s : Store) {ref other : Nat} (state : VarState) (h : ref ≠ other) :
    (s.setState ref state).cell other = s.cell other := by
  simp [cell, setState, Array.getElem?_modify, h]

theorem cell_setState_self (s : Store) {ref : Nat} (state : VarState) (h : ref < s.size) :
    (s.setState ref state).cell ref = { s.cell ref with state } := by
  simp only [size] at h
  simp [cell, setState, Array.getElem?_modify, Array.getElem?_eq_getElem h]

def alloc (s : Store) (id : Int) (state : VarState) : Ty × Store :=
  (.cell s.size, { s with cells := s.cells.push ⟨id, state⟩ })

theorem size_alloc (s : Store) (id : Int) (state : VarState) :
    (s.alloc id state).2.size = s.size + 1 := by
  simp [size, alloc]

theorem cell_alloc (s : Store) (id : Int) (state : VarState) {ref : Nat} (h : ref < s.size) :
    (s.alloc id state).2.cell ref = s.cell ref := by
  simp only [size] at h
  simp [cell, alloc, Array.getElem?_push, Nat.ne_of_lt h]

def freshMissing (s : Store) : Ty × Store :=
  (.missing (s.marks + 1), { s with marks := s.marks + 1 })

def newRow (s : Store) : Row → Row × Store
  | [] => ([], s)
  | (label, .missing _) :: row =>
    let (t, s) := s.freshMissing
    let (row, s) := s.newRow row
    ((label, t) :: row, s)
  | field :: row =>
    let (row, s) := s.newRow row
    (field :: row, s)

def setLink (s : Store) (ref : Nat) (t : Ty) : Except Fault Store :=
  match s.state ref with
  | .linked _ => .error (.alreadyLinked (s.cell ref).id)
  | _ =>
    if t.isMissing then .error (.linkedToMissing (s.cell ref).id)
    else .ok (s.setState ref (.linked t))

def lowerLevel (s : Store) (ref : Nat) (level : Int) : Except Fault Store :=
  match s.state ref with
  | .unbound current =>
    .ok (if level < current then s.setState ref (.ofLevel level) else s)
  | _ => .error (.notUnbound (s.cell ref).id)

def headWithin (s : Store) : Nat → Ty → Ty
  | budget + 1, .cell ref =>
    match s.state ref with
    | .linked target => s.headWithin budget target
    | _ => .cell ref
  | _, t => t

/-- Links that can follow one another without coming back to a cell are no more than the cells. -/
def depth (s : Store) : Nat := s.size + 1

def head (s : Store) (t : Ty) : Ty := s.headWithin s.depth t

def resolveWithin (s : Store) : Nat → Ty → Ty
  | 0, t => t
  | budget + 1, t =>
    Id.run <| t.replaceM fun
      | .missing mark => .missing mark
      | .cell ref =>
        match s.state ref with
        | .linked target => s.resolveWithin budget target
        | _ => .cell ref

def resolve (s : Store) (t : Ty) : Ty := s.resolveWithin s.depth t

end Store

end LetPoly
