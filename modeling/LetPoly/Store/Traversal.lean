import LetPoly.Store.Basic

namespace LetPoly.Store

def occursWithin (s : Store) (id : Int) : Nat → Ty → Bool
  | 0, _ => false
  | budget + 1, t => t.leaves.any fun
    | .missing _ => false
    | .cell ref =>
      match s.state ref with
      | .unbound _ => (s.cell ref).id == id
      | .generic => false
      | .linked target => s.occursWithin id budget target

def occurs (s : Store) (id : Int) (t : Ty) : Bool := s.occursWithin id s.depth t

def unboundIdsWithin (s : Store) : Nat → Ty → List Int
  | 0, _ => []
  | budget + 1, t => t.leaves.flatMap fun
    | .missing _ => []
    | .cell ref =>
      match s.state ref with
      | .unbound _ => [(s.cell ref).id]
      | .generic => []
      | .linked target => s.unboundIdsWithin budget target

def unboundIds (s : Store) (t : Ty) : List Int :=
  (s.unboundIdsWithin s.depth t).eraseDups.mergeSort

/-- Whether a generic variable is met in a type. A missing part that is met before one is a fault.
    -/
def isGenericWithin (s : Store) : Nat → Ty → Except Fault Bool
  | 0, _ => .ok false
  | budget + 1, t => t.leaves.anyM fun
    | .missing _ => .error .missingType
    | .cell ref =>
      match s.state ref with
      | .unbound _ => .ok false
      | .generic => .ok true
      | .linked target => s.isGenericWithin budget target

def isGeneric (s : Store) (t : Ty) : Except Fault Bool := s.isGenericWithin s.depth t

/-- Lowers every unbound variable met in a type to a level, so that none of them outlives the
    variable which the type is about to be bound to. -/
def adjustLevelsWithin (level : Int) : Nat → Store → Ty → Store
  | 0, s, _ => s
  | budget + 1, s, t =>
    t.leaves.foldl
      (fun s leaf =>
        match leaf with
        | .missing _ => s
        | .cell ref =>
          match s.state ref with
          | .unbound current => if level < current then s.setState ref (.ofLevel level) else s
          | .generic => s
          | .linked target => adjustLevelsWithin level budget s target)
      s

def adjustLevels (s : Store) (level : Int) (t : Ty) : Store :=
  adjustLevelsWithin level s.depth s t

end LetPoly.Store
