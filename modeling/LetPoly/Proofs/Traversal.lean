import LetPoly.Proofs.Reach
import LetPoly.Store.Traversal

namespace LetPoly

attribute [ext] Cell

def VarState.lower (level : Int) : VarState → VarState
  | .unbound own => .unbound (min level own)
  | state => state

@[simp] theorem VarState.lower_lower (level : Int) (state : VarState) :
    (state.lower level).lower level = state.lower level := by
  cases state <;> simp [lower]

theorem VarState.lower_eq_linked {level : Int} {state : VarState} {target : Ty} :
    state.lower level = .linked target ↔ state = .linked target := by
  cases state <;> simp [lower]

theorem VarState.lower_eq_unbound {level own : Int} {state : VarState} :
    state.lower level = .unbound own ↔ ∃ before, state = .unbound before ∧ own = min level before := by
  cases state <;> simp [lower, eq_comm]

namespace Store

variable {s s' s'' : Store} {t : Ty} {n : Nat} {level : Int} {met met' : Nat → Prop}

theorem occursWithin_iff {id : Int} :
    s.occursWithin id n t = true ↔
      ∃ ref level, s.ReachesIn n t ref ∧ s.state ref = .unbound level ∧ (s.cell ref).id = id := by
  induction n generalizing t with
  | zero => simp [occursWithin, ReachesIn]
  | succ n ih =>
    simp only [occursWithin, List.any_eq_true]
    constructor
    · rintro ⟨leaf, member, found⟩
      cases leaf with
      | missing mark => simp at found
      | cell ref =>
        cases state : s.state ref with
        | generic => simp [state] at found
        | unbound level =>
          simp only [state, beq_iff_eq] at found
          exact ⟨ref, level, .inl member, state, found⟩
        | linked target =>
          simp only [state] at found
          obtain ⟨other, level, reach, free, same⟩ := ih.mp found
          exact ⟨other, level, .inr ⟨ref, target, member, state, reach⟩, free, same⟩
    · rintro ⟨ref, level, leaf | ⟨first, target, leaf, linked, rest⟩, free, same⟩
      · exact ⟨.cell ref, leaf, by simp [free, same]⟩
      · refine ⟨.cell first, leaf, ?_⟩
        simp only [linked]
        exact ih.mpr ⟨ref, level, rest, free, same⟩

theorem occurs_iff {id : Int} :
    s.occurs id t = true ↔
      ∃ ref level, s.Reaches t ref ∧ s.state ref = .unbound level ∧ (s.cell ref).id = id := by
  simp only [occurs, occursWithin_iff, reachesIn_depth]

theorem mem_unboundIdsWithin {id : Int} :
    id ∈ s.unboundIdsWithin n t ↔ s.occursWithin id n t = true := by
  induction n generalizing t with
  | zero => simp [unboundIdsWithin, occursWithin]
  | succ n ih =>
    simp only [unboundIdsWithin, occursWithin, List.mem_flatMap, List.any_eq_true]
    refine exists_congr fun leaf => and_congr_right fun _ => ?_
    cases leaf with
    | missing mark => simp
    | cell ref =>
      cases state : s.state ref with
      | unbound level =>
        simp only [state, List.mem_singleton, beq_iff_eq]
        exact eq_comm
      | generic => simp [state]
      | linked target =>
        simp only [state]
        exact ih

theorem mem_unboundIds {id : Int} : id ∈ s.unboundIds t ↔ s.occurs id t = true := by
  rw [unboundIds, List.mem_mergeSort, List.mem_eraseDups, mem_unboundIdsWithin, occurs]

theorem unboundIds_eq_nil_iff :
    s.unboundIds t = [] ↔ ∀ ref level, s.Reaches t ref → s.state ref ≠ .unbound level := by
  rw [List.eq_nil_iff_forall_not_mem]
  simp only [mem_unboundIds, occurs_iff]
  constructor
  · intro none ref level reach free
    exact none _ ⟨ref, level, reach, free, rfl⟩
  · rintro closed id ⟨ref, level, reach, free, -⟩
    exact closed ref level reach free

/-- The unbound variables among the cells that were met have come down to the level, and nothing
    else has changed. -/
structure Lowers (level : Int) (met : Nat → Prop) (s s' : Store) : Prop where
  size : s'.size = s.size
  marks : s'.marks = s.marks
  id : ∀ ref, (s'.cell ref).id = (s.cell ref).id
  lowered : ∀ ref, met ref → s'.state ref = (s.state ref).lower level
  kept : ∀ ref, ¬ met ref → s'.state ref = s.state ref

namespace Lowers

theorem linked_iff (lowers : Lowers level met s s') (ref : Nat) (target : Ty) :
    s'.state ref = .linked target ↔ s.state ref = .linked target := by
  by_cases seen : met ref
  · rw [lowers.lowered ref seen, VarState.lower_eq_linked]
  · rw [lowers.kept ref seen]

theorem trans (first : Lowers level met s s') (second : Lowers level met' s' s'') :
    Lowers level (fun ref => met ref ∨ met' ref) s s'' := by
  refine ⟨second.size.trans first.size, second.marks.trans first.marks,
    fun ref => (second.id ref).trans (first.id ref), ?_, ?_⟩
  · intro ref seen
    by_cases early : met ref <;> by_cases late : met' ref
    · rw [second.lowered ref late, first.lowered ref early, VarState.lower_lower]
    · rw [second.kept ref late, first.lowered ref early]
    · rw [second.lowered ref late, first.kept ref early]
    · exact absurd seen (not_or.mpr ⟨early, late⟩)
  · intro ref unseen
    obtain ⟨early, late⟩ := not_or.mp unseen
    rw [second.kept ref late, first.kept ref early]

theorem widen (lowers : Lowers level met s s') (subset : ∀ ref, met ref → met' ref)
    (idle : ∀ ref, met' ref → ¬ met ref → (s.state ref).lower level = s.state ref) :
    Lowers level met' s s' := by
  refine ⟨lowers.size, lowers.marks, lowers.id, fun ref seen => ?_, fun ref unseen => ?_⟩
  · by_cases already : met ref
    · exact lowers.lowered ref already
    · rw [lowers.kept ref already, idle ref seen already]
  · exact lowers.kept ref fun already => unseen (subset ref already)

theorem congr (lowers : Lowers level met s s') (same : ∀ ref, met ref ↔ met' ref) :
    Lowers level met' s s' :=
  lowers.widen (fun ref => (same ref).mp) fun ref seen unseen => absurd ((same ref).mpr seen) unseen

theorem refl (level : Int) (s : Store) : Lowers level (fun _ => False) s s :=
  ⟨rfl, rfl, fun _ => rfl, fun _ => False.elim, fun _ _ => rfl⟩

end Lowers

theorem lowers_unbound {ref : Nat} {own : Int} (free : s.state ref = .unbound own)
    (unmarked : level ≠ genericLevel ∧ level ≠ linkLevel) :
    Lowers level (· = ref) s (if level < own then s.setState ref (.ofLevel level) else s) := by
  by_cases deeper : level < own
  · have inside := lt_size_of_unbound free
    have unbound : VarState.ofLevel level = .unbound level := by simp [VarState.ofLevel, unmarked]
    simp only [deeper, if_true, unbound]
    refine ⟨size_setState _ _ _, rfl, fun other => ?_, ?_, fun other different => ?_⟩
    · by_cases same : ref = other
      · subst same
        rw [cell_setState_self _ _ inside]
      · rw [cell_setState_ne _ _ same]
    · rintro _ rfl
      rw [state, cell_setState_self _ _ inside, free, VarState.lower,
        Int.min_eq_left (Int.le_of_lt deeper)]
    · rw [state, cell_setState_ne _ _ (Ne.symm different), state]
  · simp only [deeper, if_false]
    refine (Lowers.refl level s).widen (fun _ => False.elim) ?_
    rintro _ rfl -
    rw [free, VarState.lower, Int.min_eq_right (Int.not_lt.mp deeper)]

def MetAt (s : Store) (n : Nat) (leaf : Leaf) (ref : Nat) : Prop :=
  leaf = .cell ref ∨
    ∃ first target, leaf = .cell first ∧ s.state first = .linked target ∧ s.ReachesIn n target ref

theorem reachesIn_succ {ref : Nat} :
    s.ReachesIn (n + 1) t ref ↔ ∃ leaf ∈ t.leaves, s.MetAt n leaf ref := by
  constructor
  · rintro (leaf | ⟨first, target, leaf, linked, rest⟩)
    · exact ⟨.cell ref, leaf, .inl rfl⟩
    · exact ⟨.cell first, leaf, .inr ⟨first, target, rfl, linked, rest⟩⟩
  · rintro ⟨_, leaf, rfl | ⟨first, target, rfl, linked, rest⟩⟩
    · exact .inl leaf
    · exact .inr ⟨first, target, leaf, linked, rest⟩

def lowerLeaf (level : Int) (n : Nat) (s : Store) : Leaf → Store
  | .missing _ => s
  | .cell ref =>
    match s.state ref with
    | .unbound own => if level < own then s.setState ref (.ofLevel level) else s
    | .generic => s
    | .linked target => adjustLevelsWithin level n s target

theorem adjustLevelsWithin_succ (level : Int) (n : Nat) (s : Store) (t : Ty) :
    adjustLevelsWithin level (n + 1) s t = t.leaves.foldl (lowerLeaf level n) s := rfl

theorem lowerLeaf_lowers (unmarked : level ≠ genericLevel ∧ level ≠ linkLevel)
    (below : ∀ s t, Lowers level (s.ReachesIn n t) s (adjustLevelsWithin level n s t)) (s : Store)
    (leaf : Leaf) : Lowers level (s.MetAt n leaf) s (lowerLeaf level n s leaf) := by
  cases leaf with
  | missing mark => exact (Lowers.refl level s).congr (by simp [MetAt])
  | cell ref =>
    cases state : s.state ref with
    | unbound own =>
      simp only [lowerLeaf, state]
      refine (lowers_unbound state unmarked).congr fun other => ?_
      simp [MetAt, state, eq_comm]
    | generic =>
      simp only [lowerLeaf, state]
      refine (Lowers.refl level s).widen (fun _ => False.elim) ?_
      rintro other (same | ⟨first, target, same, linked, -⟩) -
      · cases same
        rw [state]
        rfl
      · cases same
        rw [state] at linked
        cases linked
    | linked target =>
      simp only [lowerLeaf, state]
      refine (below s target).widen (fun other reach => .inr ⟨ref, target, rfl, state, reach⟩) ?_
      rintro other (same | ⟨first, aim, same, linked, reach⟩) unseen
      · cases same
        rw [state]
        rfl
      · cases same
        rw [state] at linked
        cases linked
        exact absurd reach unseen

theorem adjustLevelsWithin_lowers (unmarked : level ≠ genericLevel ∧ level ≠ linkLevel) (n : Nat)
    (s : Store) (t : Ty) : Lowers level (s.ReachesIn n t) s (adjustLevelsWithin level n s t) := by
  induction n generalizing s t with
  | zero => exact .refl level s
  | succ n ih =>
    rw [adjustLevelsWithin_succ]
    suffices all : Lowers level (fun ref => ∃ leaf ∈ t.leaves, s.MetAt n leaf ref) s
        (t.leaves.foldl (lowerLeaf level n) s) from all.congr fun ref => reachesIn_succ.symm
    generalize t.leaves = leaves
    induction leaves generalizing s with
    | nil => exact (Lowers.refl level s).congr (by simp)
    | cons leaf leaves rest =>
      have first := lowerLeaf_lowers unmarked ih s leaf
      -- no link has changed, so the other leaves meet what they would have met before
      have same : ∀ other ref, (lowerLeaf level n s leaf).MetAt n other ref ↔ s.MetAt n other ref := by
        intro other ref
        simp only [MetAt, first.linked_iff, reachesIn_congr first.linked_iff]
      rw [List.foldl_cons]
      refine (first.trans (rest _)).congr fun ref => ?_
      simp only [same, List.exists_mem_cons_iff]

theorem adjustLevels_lowers (unmarked : level ≠ genericLevel ∧ level ≠ linkLevel) (s : Store)
    (t : Ty) : Lowers level (s.Reaches t) s (s.adjustLevels level t) :=
  (adjustLevelsWithin_lowers unmarked s.depth s t).congr fun _ => reachesIn_depth

end Store

end LetPoly
