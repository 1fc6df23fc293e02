import LetPoly.Proofs.Inference.Task
import LetPoly.Proofs.Unification.Run

namespace LetPoly.Store

variable {s s' s'' : Store} {env : Bindings} {t : Ty} {ref : Nat} {level bound : Int}
  {within : Nat → Prop}

def Visible (s : Store) (env : Bindings) (ref : Nat) : Prop :=
  ∃ name t, env.get? name = some t ∧ s.Reaches t ref

def VisibleUpTo (s : Store) (env : Bindings) (level : Int) : Prop :=
  ∀ ref own, s.Visible env ref → s.state ref = .unbound own → own ≤ level

theorem Ties.visibleUpTo (ties : s.Ties ref level t s') (unmarked : s.Unmarked)
    (upTo : s.VisibleUpTo env bound) : s'.VisibleUpTo env bound := by
  intro other own visible free
  obtain ⟨name, u, found, reach⟩ := visible
  obtain ⟨-, before, state, after⟩ := ties.unbound free
  rcases ties.reaches unmarked reach with reach | ⟨reach, rest⟩
  · have le := upTo other before ⟨name, u, found, reach⟩ state
    rcases after with ⟨-, same⟩ | ⟨-, same⟩
    · omega
    · omega
  · -- it has become visible behind the variable that was tied, whose level it has come down to
    have le := upTo ref level ⟨name, u, found, reach⟩ ties.free
    rcases after with ⟨-, same⟩ | ⟨unmet, -⟩
    · omega
    · exact absurd rest unmet

theorem Steps.visibleUpTo (steps : Steps within s s') (unmarked : s.Unmarked)
    (upTo : s.VisibleUpTo env level) : s'.VisibleUpTo env level := by
  induction steps with
  | refl => exact upTo
  | tail before step ih =>
    obtain ⟨ref, level, t, ties, -⟩ := step
    exact ties.visibleUpTo (Steps.unmarked before unmarked) ih

theorem Forward.distinct (forward : s.Forward s') (distinct : s.Distinct) : s'.Distinct := by
  intro ref other _ _ free free' same
  obtain ⟨_, before⟩ := forward.free_before free
  obtain ⟨_, before'⟩ := forward.free_before free'
  rw [forward.id, forward.id] at same
  exact distinct before before' same

/-- All that is new is generic, under the number of an unbound variable that was deeper. -/
structure NamesDeeper (level : Int) (s s' : Store) : Prop where
  grown : s.Extends s'
  named : ∀ new, s.size ≤ new → new < s'.size → ∃ ref own, s.state ref = .unbound own ∧ level < own ∧
    s'.cell new = ⟨(s.cell ref).id, .generic⟩

theorem NamesDeeper.refl (level : Int) (s : Store) : NamesDeeper level s s :=
  ⟨.refl s, fun _ outside inside => absurd inside (Nat.not_lt.mpr outside)⟩

theorem NamesDeeper.name (names : NamesDeeper level s s') {own : Int}
    (free : s'.state ref = .unbound own) (deeper : level < own) :
    NamesDeeper level s (s'.alloc (s'.cell ref).id .generic).2 := by
  have inside : ref < s.size := by
    by_contra outside
    obtain ⟨_, _, -, -, cell⟩ := names.named ref (Nat.not_lt.mp outside) (lt_size_of_unbound free)
    rw [state, cell] at free
    cases free
  rw [names.grown.state inside] at free
  refine ⟨names.grown.trans (extends_alloc _ _ _), fun new outside bound => ?_⟩
  rw [size_alloc] at bound
  by_cases here : new = s'.size
  · refine ⟨ref, own, free, deeper, ?_⟩
    rw [here, cell_alloc_self, names.grown.cell ref inside]
  · have before : new < s'.size := by omega
    rw [cell_alloc _ _ _ before]
    exact names.named new outside before

theorem generalize_namesDeeper (s : Store) (level : Int) (t : Ty) :
    NamesDeeper level s (s.generalize level t).2 := by
  refine generalizeWithin_moves (R := fun s₁ s₂ => NamesDeeper level s s₁ → NamesDeeper level s s₂)
    (fun _ names => names) (fun _ _ _ first second names => second (first names)) ?_ ?_ s.depth t
    (s, []) (.refl level s)
  · intro s₁ names
    exact ⟨names.grown.trans (extends_freshMissing _), names.named⟩
  · intro s₁ ref own free deeper names
    exact names.name free deeper

theorem mem_generalize_iff {own : Int} (complete : s.Complete t) (free : s.state ref = .unbound own)
    (outer : own ≤ level) :
    .var ref ∈ ((s.generalize level t).2.view (s.generalize level t).1).atoms ↔
      .var ref ∈ (s.view t).atoms := by
  rw [(generalize_spec level complete).2.view_eq, Term.var_mem_subst]
  constructor
  · intro kept
    obtain ⟨other, member, inside⟩ := kept
    rw [var_mem_closing inside]
    exact member
  · intro member
    refine ⟨ref, member, ?_⟩
    rw [closing_of_le free outer]
    simp

/-- Whatever is unified, in whatever order and with whatever outcome, a variable that is visible from
    an outer scope stays at its level, and generalizing there does not make it generic: it is the
    same unbound cell, no generic variable is made under its number, and it stands in the closed
    type wherever it stood in the type. -/
theorem visible_not_generalized (unmarked : s.Unmarked) (upTo : s.VisibleUpTo env level)
    (pairs : List (Ty × Ty)) :
    (s.unifyEach pairs).1.VisibleUpTo env level ∧
    (s.Distinct → ∀ t ref own, (s.unifyEach pairs).1.Visible env ref →
      (s.unifyEach pairs).1.state ref = .unbound own →
      let after := (s.unifyEach pairs).1
      let closed := after.generalize level t
      closed.2.cell ref = after.cell ref ∧
      (∀ new, after.size ≤ new → new < closed.2.size →
        (closed.2.cell new).id ≠ (after.cell ref).id) ∧
      (after.Complete t →
        (.var ref ∈ (closed.2.view closed.1).atoms ↔ .var ref ∈ (after.view t).atoms))) := by
  have steps := unifyEach_steps unmarked pairs
  have upTo := steps.visibleUpTo unmarked upTo
  refine ⟨upTo, fun distinct t ref own visible free => ?_⟩
  have distinct := (steps.forward unmarked).distinct distinct
  have names := generalize_namesDeeper (s.unifyEach pairs).1 level t
  have outer := upTo ref own visible free
  refine ⟨names.grown.cell ref (lt_size_of_unbound free), ?_, ?_⟩
  · intro new outside inside same
    obtain ⟨other, own', free', deeper, cell⟩ := names.named new outside inside
    rw [cell] at same
    have here := distinct free' free same
    subst here
    rw [free] at free'
    cases free'
    omega
  · exact fun complete => mem_generalize_iff complete free outer

def layered : Store :=
  { cells := #[⟨7, .unbound 1⟩, ⟨8, .unbound 3⟩, ⟨9, .unbound 5⟩, ⟨10, .linked (.cell 2)⟩] }

def layeredEnv : Bindings := ⟨[("x", .list (.cell 0))]⟩

def layeredPairs : List (Ty × Ty) :=
  [(.cell 0, .fn [.cell 1] (.record [("f", .cell 3)])),
   (.tuple [.cell 1, .int], .tuple [.list (.cell 2), .string])]

theorem layered_unmarked : layered.Unmarked := by
  intro ref level free
  rcases ref with _ | _ | _ | _ | ref
  all_goals cases free
  all_goals decide

theorem layered_distinct : layered.Distinct := by
  have number : ∀ {ref level}, layered.state ref = .unbound level →
      (layered.cell ref).id = ref + 7 := by
    intro ref level free
    rcases ref with _ | _ | _ | _ | ref
    all_goals cases free
    all_goals rfl
  intro ref other _ _ free free' same
  rw [number free, number free'] at same
  omega

theorem layered_visibleUpTo : layered.VisibleUpTo layeredEnv 1 := by
  intro ref own visible free
  obtain ⟨name, t, found, reach⟩ := visible
  obtain rfl : t = .list (.cell 0) := by
    simp only [layeredEnv, Index.get?, List.lookup_cons, List.lookup_nil] at found
    split at found
    · exact (Option.some.inj found).symm
    · cases found
  obtain ⟨part, member, reach⟩ := (reaches_node rfl).mp reach
  obtain rfl := List.mem_singleton.mp member
  have plain : ∀ target, layered.state 0 ≠ .linked target := by
    intro target linked
    cases linked
  obtain rfl := (reaches_plain plain).mp reach
  cases free
  decide

theorem visible_not_generalized_layered :
    let after := (layered.unifyEach layeredPairs).1
    let closed := after.generalize 1 (.cell 1)
    layered.Unmarked ∧ layered.VisibleUpTo layeredEnv 1 ∧ layered.Distinct ∧
      (layered.unifyEach layeredPairs).2.map Option.isSome = [false, true] ∧
      after.VisibleUpTo layeredEnv 1 ∧ after.Visible layeredEnv 2 ∧ after.state 2 = .unbound 1 ∧
      closed.2.cell 2 = after.cell 2 ∧ .var 2 ∈ (closed.2.view closed.1).atoms := by
  intro after closed
  have first : after.state 0 = .linked (.fn [.cell 1] (.record [("f", .cell 3)])) := rfl
  have third : after.state 3 = .linked (.cell 2) := rfl
  have second : after.state 1 = .linked (.list (.cell 2)) := rfl
  have free : after.state 2 = .unbound 1 := rfl
  have visible : after.Visible layeredEnv 2 :=
    ⟨"x", .list (.cell 0), rfl,
      .through (by decide) first (.through (by decide) third (.here (by decide)))⟩
  have complete : after.Complete (.cell 1) := by
    refine .of_link (by decide) second (.of_parts rfl fun part member => ?_)
    rw [List.mem_singleton.mp member]
    exact .of_plain (by decide) (by simp [free])
  obtain ⟨upTo, kept⟩ :=
    visible_not_generalized layered_unmarked layered_visibleUpTo layeredPairs
  obtain ⟨same, -, stays⟩ := kept layered_distinct (.cell 1) 2 1 visible free
  have met : .var 2 ∈ (after.view (.cell 1)).atoms :=
    (var_mem_view complete.finite).mpr ⟨.through (by decide) second (.here (by decide)), 1, free⟩
  exact ⟨layered_unmarked, layered_visibleUpTo, layered_distinct, rfl, upTo, visible, free, same,
    (stays complete).mpr met⟩

end LetPoly.Store
