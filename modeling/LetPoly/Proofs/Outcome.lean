import LetPoly.Proofs.Lists

namespace LetPoly

variable {ε α β : Type} {b : β}

theorem bind_eq_ok_iff {x : Except ε α} {f : α → Except ε β} :
    x >>= f = .ok b ↔ ∃ a, x = .ok a ∧ f a = .ok b := by
  cases x with
  | error e =>
    constructor
    · intro done
      cases done
    · rintro ⟨a, done, -⟩
      cases done
  | ok a =>
    constructor
    · intro done
      exact ⟨a, rfl, done⟩
    · rintro ⟨_, ⟨⟩, done⟩
      exact done

theorem exists_error_iff {x : Except ε α} : (∃ err, x = .error err) ↔ ∀ a, x ≠ .ok a := by
  cases x with
  | error err => simp
  | ok a => simp

theorem mapError_eq_ok_iff {δ : Type} {x : Except ε α} {f : ε → δ} {a : α} :
    x.mapError f = .ok a ↔ x = .ok a := by
  cases x <;> simp [Except.mapError]

theorem mapM_eq_ok_iff {f : α → Except ε β} {xs : List α} {ys : List β} :
    xs.mapM f = .ok ys ↔ List.Forall₂ (fun x y => f x = .ok y) xs ys := by
  induction xs generalizing ys with
  | nil =>
    rw [List.mapM_nil, List.forall₂_nil_left_iff]
    constructor
    · intro done
      cases done
      rfl
    · rintro rfl
      rfl
  | cons x xs ih =>
    simp only [List.mapM_cons, bind_eq_ok_iff, ih, List.forall₂_cons_left_iff]
    constructor
    · rintro ⟨y, first, others, rest, done⟩
      cases done
      exact ⟨y, others, first, rest, rfl⟩
    · rintro ⟨y, others, first, rest, rfl⟩
      exact ⟨y, first, others, rest, rfl⟩

theorem mapM_eq_error {f : α → Except ε β} {xs : List α} {err : ε} (fails : xs.mapM f = .error err) :
    ∃ x, ∃ i : Nat, FirstAt (fun x => ∀ y, f x ≠ .ok y) xs i x ∧ f x = .error err := by
  induction xs with
  | nil => cases fails
  | cons x xs ih =>
    cases first : f x with
    | error other =>
      rw [List.mapM_cons, first] at fails
      cases fails
      refine ⟨x, 0, .head fun y done => ?_, first⟩
      cases first.symm.trans done
    | ok y =>
      cases rest : xs.mapM f with
      | ok ys =>
        rw [List.mapM_cons, first, rest] at fails
        cases fails
      | error other =>
        rw [List.mapM_cons, first, rest] at fails
        cases fails
        obtain ⟨later, i, place, fails⟩ := ih rest
        exact ⟨later, i + 1, place.cons (fun none => none y first), fails⟩

end LetPoly
