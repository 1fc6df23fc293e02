import LetPoly.Proofs.Unification.Depth

namespace LetPoly.Store

open Relation (ReflTransGen)

variable {s s' s'' : Store} {a b t u : Ty} {ref other : Nat} {level : Int} {clash : UnifyError}

theorem unbound?_eq_some :
    s.unbound? t = some (ref, level) ↔ t = .cell ref ∧ s.state ref = .unbound level := by
  cases t with
  | cell other =>
    cases state : s.state other with
    | unbound current =>
      simp only [unbound?, state, Option.some.injEq, Prod.mk.injEq, Ty.cell.injEq]
      constructor
      · rintro ⟨rfl, rfl⟩
        exact ⟨rfl, state⟩
      · rintro ⟨rfl, free⟩
        rw [state] at free
        cases free
        exact ⟨rfl, rfl⟩
    | generic | linked =>
      simp only [unbound?, state, reduceCtorEq, Ty.cell.injEq, false_iff]
      rintro ⟨rfl, free⟩
      simp [state] at free
  | _ => simp [unbound?]

theorem unifyWithin_tops {depth : Nat} (freeA : s.unbound? (s.head a) = none)
    (freeB : s.unbound? (s.head b) = none)
    (built : ¬ ∃ ref other, s.head a = .cell ref ∧ s.head b = .cell other) :
    unifyWithin clash (depth + 1) s a b =
      discharge (unifyWithin clash depth) clash s (Obligation.ofTops (s.head a) (s.head b)) := by
  simp only [unifyWithin, freeA, freeB]
  split
  · rename_i ref other topA topB
    exact absurd ⟨ref, other, topA, topB⟩ built
  · rfl

inductive Layer (s : Store) (a b : Ty) : Prop
  | equal (run : ∀ clash depth, unifyWithin clash (depth + 1) s a b = (s, none))
  | clash (run : ∀ clash depth, unifyWithin clash (depth + 1) s a b = (s, some clash))
  | left {ref : Nat} {level : Int} (top : s.head a = .cell ref)
    (free : s.state ref = .unbound level)
    (run : ∀ clash depth, unifyWithin clash (depth + 1) s a b = s.bind ref level (s.head b))
  | right {ref : Nat} {level : Int} (top : s.head b = .cell ref)
    (free : s.state ref = .unbound level)
    (run : ∀ clash depth, unifyWithin clash (depth + 1) s a b = s.bind ref level (s.head a))
  | parts (run : ∀ clash depth, unifyWithin clash (depth + 1) s a b =
      discharge (unifyWithin clash depth) clash s (Obligation.ofTops (s.head a) (s.head b)))

theorem layer (s : Store) (a b : Ty) : s.Layer a b := by
  cases freeA : s.unbound? (s.head a) with
  | some found =>
    obtain ⟨ref, level⟩ := found
    obtain ⟨top, free⟩ := unbound?_eq_some.mp freeA
    cases freeB : s.unbound? (s.head b) with
    | some found =>
      obtain ⟨other, own⟩ := found
      by_cases same : ref = other
      · exact .equal fun clash depth => by simp only [unifyWithin, freeA, freeB, same, if_true]
      · exact .left top free fun clash depth => by
          simp only [unifyWithin, freeA, freeB, same, if_false]
    | none => exact .left top free fun clash depth => by simp only [unifyWithin, freeA, freeB]
  | none =>
    cases freeB : s.unbound? (s.head b) with
    | some found =>
      obtain ⟨ref, level⟩ := found
      obtain ⟨top, free⟩ := unbound?_eq_some.mp freeB
      exact .right top free fun clash depth => by simp only [unifyWithin, freeA, freeB]
    | none =>
      by_cases cells : ∃ ref other, s.head a = .cell ref ∧ s.head b = .cell other
      · obtain ⟨ref, other, topA, topB⟩ := cells
        by_cases same : (s.cell ref).id = (s.cell other).id
        · exact .equal fun clash depth => by
            simp only [unifyWithin, freeA, freeB]
            simp only [topA, topB, same, if_true]
        · exact .clash fun clash depth => by
            simp only [unifyWithin, freeA, freeB]
            simp only [topA, topB, same, if_false]
      · exact .parts fun clash depth => unifyWithin_tops freeA freeB cells

/-- A relation between stores that every binding keeps to which is made between types in scope. What
    is in scope includes the parts of a type and the end of its chain, and stays so. -/
structure Keeps (R : Store → Store → Prop) (Scope : Store → Ty → Prop) : Prop where
  refl : ∀ s, R s s
  trans : ∀ {s s' s''}, R s s' → R s' s'' → R s s''
  head : ∀ {s t}, Scope s t → Scope s (s.head t)
  part : ∀ {s t head parts part}, Scope s t → t.node? = some (head, parts) → part ∈ parts →
    Scope s part
  later : ∀ {s s' t}, R s s' → Scope s t → Scope s' t
  bind : ∀ {s ref level t}, s.state ref = .unbound level → Scope s (.cell ref) → Scope s t →
    R s (s.bind ref level t).1

namespace Keeps

variable {R : Store → Store → Prop} {Scope : Store → Ty → Prop} {os : List Obligation}
  {step : Store → Ty → Ty → Store × Option UnifyError}

theorem discharge (keeps : Keeps R Scope)
    (steps : ∀ s a b, Scope s a → Scope s b → R s (step s a b).1)
    (inScope : ∀ a b, .equal a b ∈ os → Scope s a ∧ Scope s b) :
    R s (Store.discharge step clash s os).1 := by
  induction os generalizing s with
  | nil => exact keeps.refl s
  | cons o os ih =>
    cases o with
    | clash | fault => exact keeps.refl s
    | equal a b =>
      obtain ⟨scopeA, scopeB⟩ := inScope a b List.mem_cons_self
      have first := steps s a b scopeA scopeB
      cases run : step s a b with
      | mk s' e =>
        rw [run] at first
        simp only [Store.discharge, run]
        cases e with
        | some error => exact first
        | none =>
          refine keeps.trans first (ih fun x y member => ?_)
          obtain ⟨scopeX, scopeY⟩ := inScope x y (List.mem_cons_of_mem _ member)
          exact ⟨keeps.later first scopeX, keeps.later first scopeY⟩

theorem unifyWithin (keeps : Keeps R Scope) (clash : UnifyError) (depth : Nat) (scopeA : Scope s a)
    (scopeB : Scope s b) : R s (Store.unifyWithin clash depth s a b).1 := by
  induction depth generalizing s a b with
  | zero => exact keeps.refl s
  | succ depth steps =>
    have scopeA := keeps.head scopeA
    have scopeB := keeps.head scopeB
    cases s.layer a b with
    | equal run | clash run =>
      rw [run]
      exact keeps.refl s
    | left top free run =>
      rw [run]
      exact keeps.bind free (top ▸ scopeA) scopeB
    | right top free run =>
      rw [run]
      exact keeps.bind free (top ▸ scopeB) scopeA
    | parts run =>
      rw [run]
      refine keeps.discharge (fun s a b => steps) fun x y member => ?_
      rcases Obligation.ofTops_between member with ⟨⟨⟩⟩ | ⟨_, _, _, _, topA, topB, between⟩
      rcases between with ⟨⟨⟩⟩ | ⟨_, hx, _, hy, ⟨⟩⟩ | ⟨_, _, ⟨⟩, -⟩
      exact ⟨keeps.part scopeA topA hx, keeps.part scopeB topB hy⟩

end Keeps

namespace Ties

theorem reaches (ties : s.Ties ref level t s') (unmarked : s.Unmarked) (reach : s'.Reaches u other) :
    s.Reaches u other ∨ s.Reaches u ref ∧ s.Reaches t other := by
  induction reach with
  | here leaf => exact .inl (.here leaf)
  | @through u target passed other leaf linked _ ih =>
    by_cases same : passed = ref
    · subst same
      rw [ties.bound] at linked
      cases linked
      exact .inr ⟨.here leaf, ih.elim (fun reach => reach) And.right⟩
    · have before := ((ties.binds unmarked).linked_iff same).mp linked
      rcases ih with reach | ⟨reach, rest⟩
      · exact .inl (.through leaf before reach)
      · exact .inr ⟨.through leaf before reach, rest⟩

theorem unbound (ties : s.Ties ref level t s') {own : Int} (free : s'.state other = .unbound own) :
    other ≠ ref ∧ ∃ before, s.state other = .unbound before ∧
      (s.Reaches t other ∧ own = min level before ∨ ¬ s.Reaches t other ∧ own = before) := by
  have different : other ≠ ref := by
    rintro rfl
    rw [ties.bound] at free
    cases free
  refine ⟨different, ?_⟩
  by_cases reach : s.Reaches t other
  · rw [ties.lowered other reach] at free
    obtain ⟨before, state, same⟩ := VarState.lower_eq_unbound.mp free
    exact ⟨before, state, .inl ⟨reach, same⟩⟩
  · rw [ties.kept other different reach] at free
    exact ⟨own, free, .inr ⟨reach, rfl⟩⟩

theorem unmarked (ties : s.Ties ref level t s') (unmarked : s.Unmarked) : s'.Unmarked := by
  intro other own free
  obtain ⟨-, before, state, ⟨-, same⟩ | ⟨-, same⟩⟩ := ties.unbound free
  · rcases Int.le_total level before with le | le
    · rw [same, Int.min_eq_left le]
      exact unmarked ties.free
    · rw [same, Int.min_eq_right le]
      exact unmarked state
  · rw [same]
    exact unmarked state

end Ties

def Step (within : Nat → Prop) (s s' : Store) : Prop :=
  ∃ ref level t, s.Ties ref level t s' ∧ within ref ∧ ∀ other, s.Reaches t other → within other

abbrev Steps (within : Nat → Prop) : Store → Store → Prop := ReflTransGen (Step within)

variable {within : Nat → Prop}

namespace Steps

theorem unmarked (steps : Steps within s s') (unmarked : s.Unmarked) : s'.Unmarked := by
  induction steps with
  | refl => exact unmarked
  | tail _ step ih =>
    obtain ⟨ref, level, t, ties, -⟩ := step
    exact ties.unmarked ih

theorem forward (steps : Steps within s s') (unmarked : s.Unmarked) : s.Forward s' := by
  induction steps with
  | refl => exact .refl s
  | tail before step ih =>
    obtain ⟨ref, level, t, ties, -⟩ := step
    exact ih.trans (ties.binds (Steps.unmarked before unmarked)).forward

theorem reaches_within (steps : Steps within s s') (unmarked : s.Unmarked)
    (inside : ∀ ref, s.Reaches u ref → within ref) (reach : s'.Reaches u other) : within other := by
  induction steps generalizing other with
  | refl => exact inside other reach
  | tail before step ih =>
    obtain ⟨ref, level, t, ties, -, targets⟩ := step
    rcases ties.reaches (Steps.unmarked before unmarked) reach with reach | ⟨-, reach⟩
    · exact ih reach
    · exact targets other reach

theorem frame (steps : Steps within s s') (ref : Nat) :
    s'.cell ref = s.cell ref ∨ within ref ∧ ∃ level, s.state ref = .unbound level := by
  induction steps with
  | refl => exact .inl rfl
  | @tail s₁ s₂ before step ih =>
    obtain ⟨tied, level, t, ties, inside, targets⟩ := step
    rcases ih with same | changed
    · by_cases here : ref = tied
      · subst here
        right
        refine ⟨inside, level, ?_⟩
        rw [state, ← same]
        exact ties.free
      · by_cases reach : s₁.Reaches t ref
        · cases state : s₁.state ref with
          | unbound own =>
            right
            refine ⟨targets ref reach, own, ?_⟩
            rw [Store.state, ← same]
            exact state
          | generic | linked =>
            left
            have after := ties.lowered ref reach
            rw [state] at after
            rw [← same]
            exact Cell.ext (ties.id ref) (after.trans state.symm)
        · left
          rw [← same]
          exact Cell.ext (ties.id ref) (ties.kept ref here reach)
    · exact .inr changed

end Steps

/-- Solving ties variables to types, one after the other, and does nothing else. All of them are met
    in one of the two types. -/
theorem unify_steps (unmarked : s.Unmarked) (a b : Ty) :
    Steps (fun ref => s.Reaches a ref ∨ s.Reaches b ref) s (s.unify a b).1 := by
  let within := fun ref => s.Reaches a ref ∨ s.Reaches b ref
  have keeps : Keeps (Steps within)
      fun s t => s.Unmarked ∧ ∀ ref, s.Reaches t ref → within ref := by
    refine ⟨fun _ => .refl, .trans, ?_, ?_, ?_, ?_⟩
    · intro s t scope
      exact ⟨scope.1, fun ref reach => scope.2 ref reach.head⟩
    · intro s t head parts part scope top member
      exact ⟨scope.1, fun ref reach => scope.2 ref ((reaches_node top).mpr ⟨part, member, reach⟩)⟩
    · intro s s' t steps scope
      exact ⟨steps.unmarked scope.1, fun ref => steps.reaches_within scope.1 scope.2⟩
    · intro s ref level t free scope scope'
      rcases bind_ties scope.1 free t with ⟨-, run⟩ | ⟨-, run⟩ | ⟨s', ties, run⟩
      · rw [run]
      · rw [run]
      · rw [run]
        exact .single ⟨ref, level, t, ties, scope.2 ref (.here (by simp [Ty.leaves])), scope'.2⟩
  exact keeps.unifyWithin _ _ ⟨unmarked, fun _ => .inl⟩ ⟨unmarked, fun _ => .inr⟩

def unifyEach : Store → List (Ty × Ty) → Store × List (Option UnifyError)
  | s, [] => (s, [])
  | s, (a, b) :: pairs =>
    let first := s.unify a b
    let rest := first.1.unifyEach pairs
    (rest.1, first.2 :: rest.2)

theorem unifyEach_steps_within (unmarked : s.Unmarked) {pairs : List (Ty × Ty)}
    (inside : ∀ pair ∈ pairs, ∀ ref, s.Reaches pair.1 ref ∨ s.Reaches pair.2 ref → within ref) :
    Steps within s (s.unifyEach pairs).1 := by
  induction pairs generalizing s with
  | nil => exact .refl
  | cons pair pairs ih =>
    obtain ⟨here, later⟩ := List.forall_mem_cons.mp inside
    have first : Steps within s (s.unify pair.1 pair.2).1 := by
      refine ReflTransGen.mono ?_ _ _ (unify_steps unmarked pair.1 pair.2)
      rintro s s' ⟨ref, level, t, ties, reach, targets⟩
      exact ⟨ref, level, t, ties, here ref reach, fun other reach => here other (targets other reach)⟩
    refine .trans first (ih (first.unmarked unmarked) fun other member ref reach => ?_)
    have before := later other member
    rcases reach with reach | reach
    · exact first.reaches_within unmarked (fun ref reach => before ref (.inl reach)) reach
    · exact first.reaches_within unmarked (fun ref reach => before ref (.inr reach)) reach

theorem unifyEach_steps (unmarked : s.Unmarked) (pairs : List (Ty × Ty)) :
    Steps (fun _ => True) s (s.unifyEach pairs).1 :=
  unifyEach_steps_within unmarked fun _ _ _ _ => True.intro

end LetPoly.Store
