import LetPoly.Proofs.Unification.Order

namespace LetPoly.Store

variable {s s' : Store} {a b : Ty} {ref : Nat} {level : Int} {within : Nat → Prop}

/-- The levels that the variables had which are now read as types over a variable. -/
def levelsAbove (s s' : Store) (ref : Nat) : Set Int :=
  {level | ∃ other, s.state other = .unbound level ∧ .var ref ∈ (s'.view (.cell other)).atoms}

theorem Steps.acyclic (steps : Steps within s s') (unmarked : s.Unmarked) (acyclic : s.Acyclic) :
    s'.Acyclic := by
  induction steps with
  | refl => exact acyclic
  | tail before step ih =>
    obtain ⟨ref, level, t, ties, -⟩ := step
    exact (ties.binds (Steps.unmarked before unmarked)).acyclic ih ties.apart

theorem levelsAbove_eq_levelsMerged (acyclic : s'.Acyclic) (free : ref ∈ s'.free) :
    s.levelsAbove s' ref = s.levelsMerged s' ref := by
  have read (other : Nat) :
      .var ref ∈ (s'.view (.cell other)).atoms ↔ s'.Reaches (.cell other) ref :=
    (var_mem_view (acyclic.finite _)).trans (and_iff_left free)
  unfold levelsAbove levelsMerged
  simp only [read]

theorem Steps.levels_least (steps : Steps within s s') (unmarked : s.Unmarked)
    (acyclic : s.Acyclic) (unbound : s'.state ref = .unbound level) :
    IsLeast (s.levelsAbove s' ref) level := by
  rw [levelsAbove_eq_levelsMerged (steps.acyclic unmarked acyclic) ⟨level, unbound⟩]
  exact steps.leastLevels unmarked ref level unbound

/-- Solving leaves exact levels, where it fails, too: what is still unbound has the least level of all
    variables that are now read as types over it, and was one of them itself. Where it succeeds, the
    two types are read alike. -/
theorem unify_levels_exact (wf : s.WellFormed) (a b : Ty) :
    let s' := (s.unify a b).1
    (∀ ref level, s'.state ref = .unbound level →
      (∃ own ∈ s.levelsAbove s' ref, s.state ref = .unbound own) ∧
      IsLeast (s.levelsAbove s' ref) level) ∧
    ((s.view a).Regular → (s.view b).Regular → (s.unify a b).2 = none →
      (s'.view a).canonical = (s'.view b).canonical) := by
  intro s'
  have steps := unify_steps wf.unmarked a b
  constructor
  · intro ref level unbound
    obtain ⟨own, before⟩ := (steps.forward wf.unmarked).free_before unbound
    have itself : .var ref ∈ (s'.view (.cell ref)).atoms := by
      rw [view_unbound unbound, Term.atoms_atom]
      exact List.mem_singleton_self _
    exact ⟨⟨own, ⟨ref, before, itself⟩, before⟩, steps.levels_least wf.unmarked wf.acyclic unbound⟩
  · intro regularA regularB ok
    obtain ⟨bound, outcome⟩ := unify_outcome wf (throughout_regular wf.acyclic.finite regularA)
      (throughout_regular wf.acyclic.finite regularB)
    have equal := holds_single.mp (outcome.solved ok fun ref => .atom (.var ref))
    simpa only [Unifies, reading, Term.subst_var] using equal

def shadowing : Store :=
  { cells := #[⟨1, .unbound 1⟩, ⟨2, .unbound 4⟩, ⟨3, .unbound 6⟩,
      ⟨4, .linked (.record [("x", .cell 1), ("x", .cell 2)])⟩, ⟨5, .unbound 7⟩] }

theorem shadowing_wellFormed : shadowing.WellFormed := by
  refine ⟨acyclic_of_descending fun ref next links => ?_, ?_, ?_⟩
  · obtain ⟨target, linked, leaf⟩ := links
    rcases ref with _ | _ | _ | _ | _ | ref
    all_goals cases linked
    simp only [Ty.leaves, Ty.leavesOfRow, List.append_nil, List.mem_append, List.mem_singleton,
      Leaf.cell.injEq] at leaf
    omega
  · intro ref other _ _ unbound unbound' same
    have number : ∀ {ref level}, shadowing.state ref = .unbound level →
        (shadowing.cell ref).id = ref + 1 := by
      intro ref level unbound
      rcases ref with _ | _ | _ | _ | _ | ref
      all_goals cases unbound
      all_goals rfl
    rw [number unbound, number unbound'] at same
    omega
  · intro ref level unbound
    rcases ref with _ | _ | _ | _ | _ | ref
    all_goals cases unbound
    all_goals decide

theorem unify_levels_exact_shadowing :
    let a := Ty.fn [.cell 4, .cell 0] .int
    let b := Ty.fn [.cell 3, .cell 4] .string
    let failed := shadowing.unify a b
    let solved := shadowing.unify (.cell 0) (.list (.cell 4))
    shadowing.WellFormed ∧
    (failed.2 = some (.mismatch a b) ∧ failed.1.state 2 = .unbound 1 ∧
      (∃ own ∈ shadowing.levelsAbove failed.1 2, shadowing.state 2 = .unbound own) ∧
      IsLeast (shadowing.levelsAbove failed.1 2) 1) ∧
    (solved.2 = none ∧ solved.1.state 4 = .unbound 1 ∧
      (solved.1.view (.cell 0)).canonical = (solved.1.view (.list (.cell 4))).canonical) := by
  intro a b failed solved
  have lowered : failed.1.state 2 = .unbound 1 := rfl
  have ok : solved.2 = none := rfl
  obtain ⟨levels, -⟩ := unify_levels_exact shadowing_wellFormed a b
  obtain ⟨-, equal⟩ := unify_levels_exact shadowing_wellFormed (.cell 0) (.list (.cell 4))
  exact ⟨shadowing_wellFormed, ⟨rfl, lowered, levels 2 1 lowered⟩, ok, rfl,
    equal (by decide) (by decide) ok⟩

end LetPoly.Store
