import LetPoly.Inference.Basic
import LetPoly.Proofs.Scheme

namespace LetPoly

open Relation (ReflTransGen)

def Store.unboundCount (s : Store) : Nat :=
  s.cells.toList.countP fun cell => cell.state matches .unbound _

namespace Supply

variable {p q r : Supply} {level : Int} {ref : Nat}

/-- What inference does to the variables, one at a time: it draws an unbound one, makes a generic
    one under a number that is in use, or marks something as missing. -/
inductive Step : Supply → Supply → Prop
  | draw (p : Supply) {level : Int} (unmarked : level ≠ genericLevel ∧ level ≠ linkLevel) :
    Step p (p.freshUnbound level).2
  | name (p : Supply) (id : Int) : Step p { p with store := (p.store.alloc id .generic).2 }
  | mark (p : Supply) : Step p { p with store := p.store.freshMissing.2 }

abbrev Steps : Supply → Supply → Prop := ReflTransGen Step

def drawn (p q : Supply) : Nat := q.store.unboundCount - p.store.unboundCount

structure Unwrapped (p q : Supply) : Prop where
  first : IsWord p.nextId
  last : IsWord (p.nextId + p.drawn q)

theorem unboundCount_alloc (s : Store) (id : Int) (state : VarState) :
    (s.alloc id state).2.unboundCount =
      s.unboundCount + if state matches .unbound _ then 1 else 0 := by
  simp only [Store.unboundCount, Store.alloc, Array.toList_push, List.countP_append,
    List.countP_singleton]

theorem Step.grows (step : Step p q) : p.store.Extends q.store := by
  cases step with
  | draw unmarked =>
    rw [freshUnbound_eq p unmarked]
    exact Store.extends_alloc _ _ _
  | name id => exact Store.extends_alloc _ _ _
  | mark => exact Store.extends_freshMissing _

theorem Step.count (step : Step p q) :
    p.store.unboundCount ≤ q.store.unboundCount := by
  cases step with
  | draw unmarked =>
    rw [freshUnbound_eq p unmarked, unboundCount_alloc]
    exact Nat.le_add_right _ _
  | name id =>
    rw [unboundCount_alloc]
    exact Nat.le_add_right _ _
  | mark => exact Nat.le_refl _

namespace Steps

theorem grows (steps : Steps p q) : p.store.Extends q.store := by
  induction steps with
  | refl => exact .refl _
  | tail _ step ih => exact ih.trans step.grows

theorem count (steps : Steps p q) : p.store.unboundCount ≤ q.store.unboundCount := by
  induction steps with
  | refl => exact Nat.le_refl _
  | tail _ step ih => exact Nat.le_trans ih step.count

theorem drawn_add (first : Steps p q) (second : Steps q r) : p.drawn r = p.drawn q + q.drawn r := by
  have le := first.count
  have le' := second.count
  simp only [drawn]
  omega

end Steps

/-- The variables that were drawn have numbers of their own, from the counter on. -/
structure Numbered (p q : Supply) : Prop where
  next : q.nextId = p.nextId + p.drawn q
  range : ∀ {ref level}, p.store.size ≤ ref → q.store.state ref = .unbound level →
    p.nextId ≤ (q.store.cell ref).id ∧ (q.store.cell ref).id < q.nextId
  distinct : ∀ {ref ref' level level'}, p.store.size ≤ ref → p.store.size ≤ ref' →
    q.store.state ref = .unbound level → q.store.state ref' = .unbound level' →
    (q.store.cell ref).id = (q.store.cell ref').id → ref = ref'

theorem drawn_self (p : Supply) : p.drawn p = 0 := Nat.sub_self _

theorem Numbered.refl (p : Supply) : p.Numbered p := by
  have none : ∀ {ref level}, p.store.size ≤ ref → p.store.state ref ≠ .unbound level := by
    intro ref level outside free
    exact absurd (Store.lt_size_of_unbound free) (Nat.not_lt.mpr outside)
  refine ⟨by simp [drawn_self], fun outside free => absurd free (none outside), ?_⟩
  intro ref ref' level level' outside _ free
  exact absurd free (none outside)

theorem Numbered.keep {store : Store} (numbered : p.Numbered q) (count : store.unboundCount = q.store.unboundCount)
    (grown : q.store.Extends store) (rigid : ∀ {ref level}, q.store.size ≤ ref → store.state ref ≠ .unbound level) :
    p.Numbered { q with store } := by
  have before : ∀ {ref level}, store.state ref = .unbound level →
      q.store.state ref = .unbound level ∧ store.cell ref = q.store.cell ref := by
    intro ref level free
    have inside : ref < q.store.size := by
      by_contra outside
      exact rigid (Nat.not_lt.mp outside) free
    exact ⟨grown.state inside ▸ free, grown.cell ref inside⟩
  refine ⟨?_, fun outside free => ?_, fun outside outside' free free' same => ?_⟩
  · rw [drawn, count]
    exact numbered.next
  · obtain ⟨earlier, cell⟩ := before free
    simp only [cell]
    exact numbered.range outside earlier
  · obtain ⟨earlier, cell⟩ := before free
    obtain ⟨earlier', cell'⟩ := before free'
    simp only [cell, cell'] at same
    exact numbered.distinct outside outside' earlier earlier' same

theorem Numbered.draw (numbered : p.Numbered q) (steps : Steps p q) (word : IsWord (q.nextId + 1)) :
    p.Numbered ⟨(q.store.alloc q.nextId (.unbound level)).2, wrap64 (q.nextId + 1)⟩ := by
  have grown := Store.extends_alloc q.store q.nextId (.unbound level)
  have self : ((q.store.alloc q.nextId (.unbound level)).2.cell q.store.size).id = q.nextId := by
    rw [Store.cell_alloc_self]
  have le := Steps.count steps
  have next := numbered.next
  -- an unbound variable is the one just drawn, or was there before
  have cases : ∀ {ref own}, (q.store.alloc q.nextId (.unbound level)).2.state ref = .unbound own →
      ref = q.store.size ∨ q.store.state ref = .unbound own ∧
        (q.store.alloc q.nextId (.unbound level)).2.cell ref = q.store.cell ref := by
    intro ref own free
    have inside := Store.lt_size_of_unbound free
    rw [Store.size_alloc] at inside
    rcases Nat.lt_succ_iff_lt_or_eq.mp inside with inside | same
    · exact .inr ⟨grown.state inside ▸ free, grown.cell ref inside⟩
    · exact .inl same
  refine ⟨?_, fun outside free => ?_, fun outside outside' free free' same => ?_⟩
  · simp only [drawn, unboundCount_alloc, wrap64_of_isWord word, if_true]
    simp only [drawn] at next
    omega
  · simp only [wrap64_of_isWord word]
    rcases cases free with rfl | ⟨earlier, cell⟩
    · rw [self]
      omega
    · have range := numbered.range outside earlier
      rw [cell]
      omega
  · simp only at free free' same
    rcases cases free with rfl | ⟨earlier, cell⟩ <;> rcases cases free' with rfl | ⟨earlier', cell'⟩
    · rfl
    · have range := numbered.range outside' earlier'
      rw [self, cell'] at same
      omega
    · have range := numbered.range outside earlier
      rw [self, cell] at same
      omega
    · rw [cell, cell'] at same
      exact numbered.distinct outside outside' earlier earlier' same

theorem Unwrapped.left (first : Steps p q) (second : Steps q r) (room : p.Unwrapped r) :
    p.Unwrapped q := by
  obtain ⟨low, high⟩ := room
  rw [Steps.drawn_add first second] at high
  simp only [IsWord] at low high
  exact ⟨low, by simp only [IsWord]; omega⟩

theorem Steps.numbered (steps : Steps p q) (room : p.Unwrapped q) : p.Numbered q := by
  induction steps with
  | refl => exact .refl p
  | @tail q r steps step ih =>
    have numbered := ih (room.left steps (.single step))
    cases step with
    | draw unmarked =>
      have word := room.last
      rw [freshUnbound_eq q unmarked] at word ⊢
      refine numbered.draw steps ?_
      have le := Steps.count steps
      have next := numbered.next
      simp only [drawn, unboundCount_alloc, if_true] at word next
      simp only [IsWord] at word ⊢
      omega
    | name id =>
      refine numbered.keep (by simp [unboundCount_alloc]) (Store.extends_alloc _ _ _) ?_
      intro ref level outside free
      have inside := Store.lt_size_of_unbound free
      rw [Store.size_alloc] at inside
      obtain rfl : ref = q.store.size := by omega
      rw [Store.state_alloc_self] at free
      cases free
    | mark =>
      refine numbered.keep rfl (Store.extends_freshMissing _) fun outside free => ?_
      exact absurd (Store.lt_size_of_unbound free) (Nat.not_lt.mpr outside)

theorem Unwrapped.right (first : Steps p q) (second : Steps q r) (room : p.Unwrapped r) :
    q.Unwrapped r := by
  have next := (Steps.numbered first (room.left first second)).next
  have middle := (room.left first second).last
  have last := room.last
  rw [Steps.drawn_add first second] at last
  rw [← next] at middle
  refine ⟨middle, ?_⟩
  rw [next]
  simp only [IsWord] at last ⊢
  omega

end Supply

end LetPoly
