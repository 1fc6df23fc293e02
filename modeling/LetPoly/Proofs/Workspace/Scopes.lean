import LetPoly.Proofs.Index
import LetPoly.Proofs.Workspace.Draws
import LetPoly.Proofs.Workspace.History

namespace LetPoly

namespace Workspace

theorem env_push {w w' : Workspace} {new : Env} (pushed : w'.envs = w.envs.push new) (e : Nat) :
    w'.env e = if e = w.envs.size then new else w.env e := by
  simp only [env, pushed, Array.getElem?_push]
  split <;> rfl

theorem env_put (w : Workspace) (e other : Nat) (name : String) (t : Ty) (inside : e < w.envs.size) :
    (w.put e name t).env other =
      if e = other then { w.env other with bindings := (w.env other).bindings.insert name t }
      else w.env other := by
  simp only [put, env, Array.getElem?_modify]
  split
  · rename_i same
    subst same
    rw [Array.getElem?_eq_getElem inside]
    rfl
  · rfl

theorem nextId_withSupply (w : Workspace) (e e' : Nat) (p : Supply)
    (inside : (w.env e).counter < w.counters.size) :
    (w.withSupply e p).nextId e' =
      if (w.env e).counter = (w.env e').counter then p.nextId else w.nextId e' := by
  change ((w.counters.modify _ _)[(w.env e').counter]?).getD 0 = _
  rw [Array.getElem?_modify]
  split
  · rename_i same
    rw [← same, Array.getElem?_eq_getElem inside]
    rfl
  · rfl

end Workspace

def Action.drawer? : Action → Option Nat
  | .freshUnbound e _ | .freshGeneric e | .instantiate e _ _ | .infer e _ _ => some e
  | _ => none

def Action.draws (w : Workspace) : Action → List (Nat × Nat)
  | .freshUnbound e _ | .freshGeneric e => [(e, w.store.size)]
  | .instantiate e level t =>
    ((w.supply e).madeSince ((w.supply e).instantiate level t).2).map (e, ·)
  | .infer e level expr => (expr.drawn level (w.env e).bindings (w.supply e)).map (e, ·)
  | _ => []

inductive Operation
  | act (action : Action)
  | fork (e : Nat) (firstId : Int)
  | snapshot (e : Nat)

def Operation.scope? : Operation → Option Nat
  | .act (.clone e) | .act (.put e _ _) | .fork e _ | .snapshot e => some e
  | .act action => action.drawer?

def Operation.firstId? : Operation → Option Int
  | .act (.newEnv firstId) | .fork _ firstId => some firstId
  | _ => none

/-- A workspace with the snapshots that were taken, the first one first, and the variables that were
    drawn, in order. -/
structure Session where
  workspace : Workspace := {}
  views : List Bindings := []
  drawn : List (Nat × Nat) := []

namespace Session

def step (s : Session) : Operation → Session
  | .act action =>
    { s with
      workspace := s.workspace.act action
      drawn := s.drawn ++ action.draws s.workspace }
  | .fork e firstId => { s with workspace := (s.workspace.fork e firstId).2 }
  | .snapshot e => { s with views := s.views ++ [s.workspace.snapshot e] }

variable {action : Action}

theorem step_act (s : Session) (none : action.drawer? = none) :
    s.step (.act action) = { s with workspace := s.workspace.act action } := by
  have nothing : action.draws s.workspace = [] := by
    cases action with
    | freshUnbound | freshGeneric | instantiate | infer => cases none
    | _ => rfl
  rw [step, nothing, List.append_nil]

def after : List Operation → Session
  | [] => {}
  | operation :: earlier => (after earlier).step operation

end Session

namespace History

def opened : List Operation → Nat
  | [] => 0
  | .act (.newEnv _) :: earlier | .act (.clone _) :: earlier | .fork _ _ :: earlier =>
    opened earlier + 1
  | _ :: earlier => opened earlier

/-- The type that was put last on a name in that scope itself, or else what the scope that it was made
    from held at that moment. -/
def held : List Operation → Nat → String → Option Ty
  | [], _, _ => none
  | .act (.put e' name' t) :: earlier, e, name =>
    if e' = e ∧ name' = name then some t else held earlier e name
  | .act (.clone source) :: earlier, e, name | .fork source _ :: earlier, e, name =>
    if e = opened earlier then held earlier source name else held earlier e name
  | .act (.newEnv _) :: earlier, e, name =>
    if e = opened earlier then none else held earlier e name
  | _ :: earlier, e, name => held earlier e name

/-- The scope that a scope goes back to by cloning. Scopes with the same origin share a counter. -/
def origin : List Operation → Nat → Nat
  | [], e => e
  | .act (.clone source) :: earlier, e =>
    if e = opened earlier then origin earlier source else origin earlier e
  | _ :: earlier, e => origin earlier e

def first : List Operation → Nat → Int
  | [], _ => 0
  | .act (.newEnv firstId) :: earlier, e | .fork _ firstId :: earlier, e =>
    if e = opened earlier then firstId else first earlier e
  | .act (.clone source) :: earlier, e =>
    if e = opened earlier then first earlier source else first earlier e
  | _ :: earlier, e => first earlier e

def Valid : List Operation → Prop
  | [] => True
  | operation :: earlier =>
    (∀ e ∈ operation.scope?, e < opened earlier) ∧
      (∀ firstId ∈ operation.firstId?, IsWord firstId) ∧ Valid earlier

instance decidableValid : (history : List Operation) → Decidable (Valid history)
  | [] => isTrue True.intro
  | operation :: earlier =>
    have := decidableValid earlier
    inferInstanceAs (Decidable ((∀ e ∈ operation.scope?, e < opened earlier) ∧
      (∀ firstId ∈ operation.firstId?, IsWord firstId) ∧ Valid earlier))

variable {operation : Operation} {history : List Operation} {e : Nat}

theorem Valid.earlier {later earlier : List Operation} (valid : Valid (later ++ earlier)) :
    Valid earlier := by
  induction later with
  | nil => exact valid
  | cons operation later ih => exact ih valid.2.2

theorem size_after (history : List Operation) :
    (Session.after history).workspace.envs.size = opened history := by
  induction history with
  | nil => rfl
  | cons operation earlier ih =>
    cases operation with
    | fork e firstId => exact (Array.size_push _).trans (congrArg (· + 1) ih)
    | snapshot e => exact ih
    | act action =>
      cases action with
      | newEnv | clone => exact (Array.size_push _).trans (congrArg (· + 1) ih)
      | put e name t => exact (Array.size_modify).trans ih
      | _ => exact ih

theorem held_old (inside : e < opened history)
    (other : ∀ name t, operation ≠ .act (.put e name t)) :
    held (operation :: history) e = held history e := by
  have early : e ≠ opened history := Nat.ne_of_lt inside
  funext name
  cases operation with
  | snapshot e' => rfl
  | fork source firstId => exact if_neg early
  | act action =>
    cases action with
    | newEnv | clone => exact if_neg early
    | put e' name' t =>
      refine if_neg fun (same : e' = e ∧ name' = name) => ?_
      exact other name' t (same.1 ▸ rfl)
    | _ => rfl

theorem holds_push (operation : Operation) {w w' : Workspace} {new : Env}
    {value : String → Option Ty} (size : w.envs.size = opened history)
    (pushed : w'.envs = w.envs.push new) (other : ∀ e name t, operation ≠ .act (.put e name t))
    (holds : ∀ e < opened history, (w.env e).bindings.Holds (held history e))
    (fresh : held (operation :: history) (opened history) = value)
    (taken : new.bindings.Holds value) :
    ∀ e < opened history + 1, (w'.env e).bindings.Holds (held (operation :: history) e) := by
  intro e inside
  rw [Workspace.env_push pushed, size]
  split
  · rename_i last
    rw [last, fresh]
    exact taken
  · rename_i early
    have inside : e < opened history := by omega
    rw [held_old inside (other e)]
    exact holds e inside

theorem holds_put {w : Workspace} {name : String} {t : Ty} (size : w.envs.size = opened history)
    (holds : ∀ e < opened history, (w.env e).bindings.Holds (held history e))
    (inside : e < opened history) :
    ∀ e' < opened history,
      ((w.put e name t).env e').bindings.Holds (held (.act (.put e name t) :: history) e') := by
  intro e' inside'
  rw [Workspace.env_put w e e' name t (size ▸ inside)]
  split
  · rename_i same
    have put := (holds e' inside').insert name t
    simp only [held, same, true_and]
    simpa only [eq_comm] using put
  · rename_i different
    rw [held_old inside']
    · exact holds e' inside'
    · intro name' t' same
      cases same
      exact different rfl

theorem after_holds (valid : Valid history) : ∀ e < opened history,
    ((Session.after history).workspace.env e).bindings.Holds (held history e) := by
  induction history with
  | nil => exact fun e inside => absurd inside (Nat.not_lt_zero e)
  | cons operation earlier ih =>
    obtain ⟨scope, -, valid⟩ := valid
    have size := size_after earlier
    have holds := ih valid
    cases operation with
    | snapshot e => exact holds
    | fork e firstId =>
      refine holds_push (.fork e firstId) size rfl ?_ holds (funext fun _ => if_pos rfl)
        (holds e (scope e rfl))
      exact fun _ _ _ same => by cases same
    | act action =>
      cases action with
      | newEnv firstId =>
        refine holds_push (.act (.newEnv firstId)) size rfl ?_ holds (funext fun _ => if_pos rfl)
          Index.holds_empty
        exact fun _ _ _ same => by cases same
      | clone e =>
        refine holds_push (.act (.clone e)) size rfl ?_ holds (funext fun _ => if_pos rfl)
          (holds e (scope e rfl))
        exact fun _ _ _ same => by cases same
      | put e name t => exact holds_put size holds (scope e rfl)
      | _ => exact holds

def answer : Option Ty → Except Fault (Option Ty)
  | some (.missing _) => .error .missingType
  | found => .ok found

theorem get_eq_answer (valid : Valid history) (inside : e < opened history) (name : String) :
    (Session.after history).workspace.get e name = answer (held history e name) := by
  rw [Workspace.get, Index.read?, (after_holds valid e inside).get?]
  cases held history e name with
  | none => rfl
  | some t => cases t <;> rfl

theorem views_prefix (later earlier : List Operation) :
    (Session.after earlier).views <+: (Session.after (later ++ earlier)).views := by
  induction later with
  | nil => exact List.prefix_rfl
  | cons operation later ih =>
    apply ih.trans
    cases operation with
    | snapshot e => exact List.prefix_append _ _
    | _ => exact List.prefix_rfl

end History

end LetPoly
