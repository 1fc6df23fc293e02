import LetPoly.Proofs.Inference.Sound

namespace LetPoly

open Relation (ReflTransGen)

namespace Task

variable {task task' : Task}

theorem Calls.ready (calls : task.Calls task') (ready : task.Ready) : task'.Ready := by
  cases calls with
  | seqFirst => exact ready.seqFirst
  | seqBody done => exact ready.seqBody done
  | fnBody => exact ready.fnBody
  | letValue =>
    obtain ⟨wrapped, inner⟩ := ready.letValue
    rw [wrapped]
    exact inner
  | letBody done shown =>
    obtain ⟨wrapped, inner⟩ := ready.letValue
    rw [wrapped] at done
    obtain ⟨τ, typing, -⟩ := inner.derives done
    exact ready.letBody done shown (typing.reads shown).complete

theorem Ready.reached (ready : task.Ready) (reached : ReflTransGen Calls task task') :
    task'.Ready := by
  induction reached with
  | refl => exact ready
  | tail _ calls ih => exact calls.ready ih

end Task

open Classical in
noncomputable def Store.scan (s : Store) (env : Bindings) : Substitution := fun ref =>
  if ∃ name t, env.get? name = some t ∧ s.Reaches t ref then .atom (.var ref)
  else .atom (.rigid (s.cell ref).id)

theorem Store.Closed.scan_eq {s : Store} {env : Bindings} {ref : Nat} {own : Int}
    (closed : s.Closed env) (free : s.state ref = .unbound own) :
    s.scan env ref = (s.schemes env).closing (fun ref => (s.cell ref).id) ref := by
  have found : (s.schemes env).Free ref ↔ ∃ name t, env.get? name = some t ∧ s.Reaches t ref :=
    closed.free_iff.trans (and_iff_left ⟨own, free⟩)
  by_cases free : (s.schemes env).Free ref
  · rw [Schemes.closing_free free]
    exact if_pos (found.mp free)
  · rw [Schemes.closing_bound free]
    exact if_neg (mt found.mpr free)

theorem Supply.Accounts.closing_injective {p q : Supply} {env : Bindings} {level : Int} {τ : Term Atom}
    {ref ref' : Nat} (accounts : p.Accounts env level q τ) (numbered : p.Numbered q)
    (member : .var ref ∈ τ.atoms) (member' : .var ref' ∈ τ.atoms)
    (same : (p.store.schemes env).closing (fun ref => (q.store.cell ref).id) ref =
      (p.store.schemes env).closing (fun ref => (q.store.cell ref).id) ref') : ref = ref' := by
  by_cases free : (p.store.schemes env).Free ref <;> by_cases free' : (p.store.schemes env).Free ref'
  · rw [Schemes.closing_free free, Schemes.closing_free free'] at same
    cases same
    rfl
  · rw [Schemes.closing_free free, Schemes.closing_bound free'] at same
    cases same
  · rw [Schemes.closing_bound free, Schemes.closing_free free'] at same
    cases same
  · rw [Schemes.closing_bound free, Schemes.closing_bound free'] at same
    injection same with same
    injection same with same
    exact accounts.distinct numbered member member' free free' same

/-- Wherever inference comes to a binding of a name, generalizing by levels makes the same variables
    generic as a scan of the bindings in force there: those of the value's type that no binding
    reaches, each under a number of its own. All others stay the same unbound cells. -/
theorem generalize_eq_scan {task : Task} {pos namePos : Pos} {name : String} {value body typed : Expr}
    {bound : Ty} {level : Int} {env : Bindings} {p q : Supply} (ready : task.Ready)
    (reached : ReflTransGen Task.Calls task
      ⟨.letIn pos (.var namePos name) value body bound, level, env, p⟩)
    (done : value.infer (wrap64 (level + 1)) env p = (.ok typed, q)) :
    ∃ t, typed.typeIn q.store = .ok t ∧
      (q.store.generalize level t).2.view (q.store.generalize level t).1 =
        (q.store.view t).subst (q.store.scan env) ∧
      (∀ ref ref', .var ref ∈ (q.store.view t).atoms → .var ref' ∈ (q.store.view t).atoms →
        q.store.scan env ref = q.store.scan env ref' → ref = ref') ∧
      q.store.Extends (q.store.generalize level t).2 := by
  have here := ready.reached reached
  obtain ⟨wrapped, inner⟩ := here.letValue
  rw [wrapped] at done
  have grown := (inner.steps done).grows
  obtain ⟨τ, typing, accounts⟩ := inner.derives done
  obtain ⟨t, type, reads⟩ := typing.typeIn
  obtain ⟨grown', readsBound⟩ := Store.generalize_spec level reads.complete
  have closed := here.scope.closed.extend grown
  have schemes := here.scope.closed.schemes_extend grown
  have scan : ∀ ref, .var ref ∈ τ.atoms → q.store.scan env ref =
      (p.store.schemes env).closing (fun ref => (q.store.cell ref).id) ref := by
    intro ref member
    obtain ⟨own, free⟩ := reads.free member
    rw [closed.scan_eq free, schemes]
  rw [reads.view_eq] at readsBound
  refine ⟨t, type, ?_, ?_, grown'⟩
  · rw [readsBound.view_eq, reads.view_eq, accounts.closing_eq here.scope grown]
    exact Term.subst_congr fun ref member => (scan ref member).symm
  · intro ref ref' member member' same
    rw [reads.view_eq] at member member'
    rw [scan ref member, scan ref' member'] at same
    exact accounts.closing_injective (inner.numbered done) member member' same

def sampleBinding : Task where
  expr := sampleInner
  level := wrap64 (0 + 1)
  env := (bindParams (wrap64 (0 + 1)) sampleParams sampleTask.env sampleTask.supply).2.1
  supply := (bindParams (wrap64 (0 + 1)) sampleParams sampleTask.env sampleTask.supply).2.2

theorem sampleTask_reaches : ReflTransGen Task.Calls sampleTask sampleBinding :=
  .tail (.single .letValue) .fnBody

theorem generalize_eq_scan_sample :
    sampleTask.Ready ∧ ReflTransGen Task.Calls sampleTask sampleBinding ∧ ∃ typed q t,
      sampleValue.infer (wrap64 (sampleBinding.level + 1)) sampleBinding.env sampleBinding.supply =
        (.ok typed, q) ∧
      typed.typeIn q.store = .ok t ∧
      (q.store.generalize sampleBinding.level t).2.view (q.store.generalize sampleBinding.level t).1 =
        (q.store.view t).subst (q.store.scan sampleBinding.env) := by
  have accepted : (sampleValue.infer (wrap64 (sampleBinding.level + 1)) sampleBinding.env
      sampleBinding.supply).1.isOk = true := by decide +kernel
  refine ⟨sampleTask_ready, sampleTask_reaches, ?_⟩
  cases done : sampleValue.infer (wrap64 (sampleBinding.level + 1)) sampleBinding.env
      sampleBinding.supply with
  | mk result q =>
    cases result with
    | error stop => simp [done, Except.isOk, Except.toBool] at accepted
    | ok typed =>
      obtain ⟨t, type, same, -⟩ := generalize_eq_scan sampleTask_ready sampleTask_reaches done
      exact ⟨typed, q, t, rfl, type, same⟩

end LetPoly
