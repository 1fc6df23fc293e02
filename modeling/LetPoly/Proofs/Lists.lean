import Mathlib.Data.List.Forall2

namespace LetPoly

theorem forall₂_getElem? {α β : Type} {R : α → β → Prop} {xs : List α} {ys : List β} {y : β} {i : Nat}
    (related : List.Forall₂ R xs ys) (inside : ys[i]? = some y) : ∃ x, xs[i]? = some x ∧ R x y := by
  induction related generalizing i with
  | nil => cases inside
  | cons first _ ih =>
    cases i with
    | zero =>
      cases inside
      exact ⟨_, rfl, first⟩
    | succ i => exact ih inside

theorem exists_of_forall₂ {α β : Type} {R : α → β → Prop} {xs : List α} {ys : List β} {y : β}
    (related : List.Forall₂ R xs ys) (member : y ∈ ys) : ∃ x ∈ xs, R x y := by
  obtain ⟨i, inside⟩ := List.mem_iff_getElem?.mp member
  obtain ⟨x, there, both⟩ := forall₂_getElem? related inside
  exact ⟨x, List.mem_of_getElem? there, both⟩

theorem exists_forall₂ {α β : Type} {R : α → β → Prop} {xs : List α} (each : ∀ x ∈ xs, ∃ y, R x y) :
    ∃ ys, List.Forall₂ R xs ys := by
  induction xs with
  | nil => exact ⟨[], .nil⟩
  | cons x xs ih =>
    obtain ⟨⟨y, first⟩, rest⟩ := List.forall_mem_cons.mp each
    obtain ⟨ys, others⟩ := ih rest
    exact ⟨y :: ys, .cons first others⟩

theorem mem_intersperse {α : Type} {x sep : α} {xs : List α} (member : x ∈ xs.intersperse sep) :
    x = sep ∨ x ∈ xs := by
  fun_induction List.intersperse sep xs with
  | case1 => cases member
  | case2 y => exact .inr member
  | case3 y z zs ih => grind

/-- The member at a place is the first one with a property. -/
structure FirstAt {α : Type} (P : α → Prop) (xs : List α) (i : Nat) (x : α) : Prop where
  here : xs[i]? = some x
  holds : P x
  earlier : ∀ j < i, ∀ y, xs[j]? = some y → ¬ P y

namespace FirstAt

variable {α : Type} {P : α → Prop} {x y : α} {xs : List α} {i : Nat}

theorem head (holds : P x) : FirstAt P (x :: xs) 0 x :=
  ⟨rfl, holds, fun j less => absurd less (Nat.not_lt_zero j)⟩

theorem cons (first : FirstAt P xs i x) (other : ¬ P y) : FirstAt P (y :: xs) (i + 1) x := by
  refine ⟨first.here, first.holds, fun j less z inside => ?_⟩
  cases j with
  | zero =>
    cases inside
    exact other
  | succ j => exact first.earlier j (Nat.lt_of_succ_lt_succ less) z inside

end FirstAt

end LetPoly
