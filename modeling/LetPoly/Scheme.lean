import LetPoly.Store.Traversal
import LetPoly.Word

namespace LetPoly

abbrev Renaming := List (Int × Ty)

structure Supply where
  store : Store := {}
  nextId : Int := 0

namespace Supply

def fresh (p : Supply) (state : VarState) : Ty × Supply :=
  let (t, store) := p.store.alloc p.nextId state
  (t, ⟨store, wrap64 (p.nextId + 1)⟩)

def freshUnbound (p : Supply) (level : Int) : Ty × Supply := p.fresh (.ofLevel level)

def freshGeneric (p : Supply) : Ty × Supply := p.fresh .generic

end Supply

namespace Store

def genericFor (id : Int) : StateM (Store × Renaming) Ty := fun (s, table) =>
  match table.lookup id with
  | some t => (t, (s, table))
  | none =>
    let (t, s) := s.alloc id .generic
    (t, (s, (id, t) :: table))

def missingAgain : StateM (Store × Renaming) Ty := fun (s, table) =>
  let (t, s) := s.freshMissing
  (t, (s, table))

def generalizeWithin (level : Int) : Nat → Ty → StateM (Store × Renaming) Ty
  | 0, t => pure t
  | budget + 1, t => t.replaceM fun
    | .missing _ => missingAgain
    | .cell ref => do
      let (s, _) ← get
      match s.state ref with
      | .linked target => generalizeWithin level budget target
      | .unbound own => if level < own then genericFor (s.cell ref).id else pure (.cell ref)
      | .generic => pure (.cell ref)

/-- The type with its links followed and a generic variable for each unbound one that is deeper
    than the level. The type that was given does not change. -/
def generalize (s : Store) (level : Int) (t : Ty) : Ty × Store :=
  let (t, s, _) := generalizeWithin level s.depth t (s, [])
  (t, s)

end Store

namespace Supply

def instanceOf (level id : Int) : ExceptT Fault (StateM (Supply × Renaming)) Ty :=
  fun (p, table) =>
    match table.lookup id with
    | some t => (.ok t, (p, table))
    | none =>
      let (t, p) := p.freshUnbound level
      (.ok t, (p, (id, t) :: table))

def instantiateWithin (level : Int) : Nat → Ty → ExceptT Fault (StateM (Supply × Renaming)) Ty
  | 0, t => pure t
  | budget + 1, t => t.replaceM fun
    | .missing _ => throw .missingType
    | .cell ref => do
      let (p, _) ← get
      match p.store.state ref with
      | .generic => instanceOf level (p.store.cell ref).id
      | .unbound _ => pure (.cell ref)
      | .linked target =>
        if ← liftExcept (p.store.isGeneric target) then instantiateWithin level budget target
        else pure (.cell ref)
where
  liftExcept (r : Except Fault Bool) : ExceptT Fault (StateM (Supply × Renaming)) Bool :=
    fun state => (r, state)

/-- The type with a fresh unbound variable at the level for each generic one. Parts without generic
    variables are shared with the type that was given. -/
def instantiate (p : Supply) (level : Int) (t : Ty) : Except Fault Ty × Supply :=
  let (r, p, _) := instantiateWithin level p.store.depth t (p, [])
  (r, p)

end Supply

end LetPoly
