import LetPoly.Text.EditDistance
import Mathlib.Order.Bounds.Basic

namespace LetPoly.Text

inductive Edit : List Char → List Char → Prop
  | insert (front back : List Char) (c : Char) : Edit (front ++ back) (front ++ c :: back)
  | delete (front back : List Char) (c : Char) : Edit (front ++ c :: back) (front ++ back)
  | replace (front back : List Char) (c d : Char) : Edit (front ++ c :: back) (front ++ d :: back)

inductive Edits : Nat → List Char → List Char → Prop
  | done (a : List Char) : Edits 0 a a
  | step {n : Nat} {a b c : List Char} : Edit a b → Edits n b c → Edits (n + 1) a c

theorem Edit.cons {a b : List Char} (edit : Edit a b) (c : Char) : Edit (c :: a) (c :: b) := by
  cases edit with
  | insert front back d => exact .insert (c :: front) back d
  | delete front back d => exact .delete (c :: front) back d
  | replace front back d e => exact .replace (c :: front) back d e

theorem Edit.reverse {a b : List Char} (edit : Edit a b) : Edit a.reverse b.reverse := by
  cases edit with
  | insert front back c => simpa using Edit.insert back.reverse front.reverse c
  | delete front back c => simpa using Edit.delete back.reverse front.reverse c
  | replace front back c d => simpa using Edit.replace back.reverse front.reverse c d

theorem Edits.cons {n : Nat} {a b : List Char} (edits : Edits n a b) (c : Char) :
    Edits n (c :: a) (c :: b) := by
  induction edits with
  | done a => exact .done (c :: a)
  | step edit _ ih => exact .step (edit.cons c) ih

theorem Edits.reverse {n : Nat} {a b : List Char} (edits : Edits n a b) :
    Edits n a.reverse b.reverse := by
  induction edits with
  | done a => exact .done a.reverse
  | step edit _ ih => exact .step edit.reverse ih

theorem Edits.reverse_iff {n : Nat} {a b : List Char} :
    Edits n a.reverse b.reverse ↔ Edits n a b := by
  constructor
  · intro edits
    simpa using edits.reverse
  · intro edits
    exact edits.reverse

theorem Edits.fewer {m n : Nat} {a b : List Char} (first : Edits m a b) (second : Edits n a b) :
    Edits (min m n) a b := by
  rcases Nat.le_total m n with le | le
  · rwa [Nat.min_eq_left le]
  · rwa [Nat.min_eq_right le]

def distance : List Char → List Char → Nat
  | [], b => b.length
  | c :: a, [] => (c :: a).length
  | c :: a, d :: b =>
    min (min (distance a (d :: b) + 1) (distance (c :: a) b + 1))
      (distance a b + if c = d then 0 else 1)
termination_by a b => a.length + b.length

@[simp]
theorem distance_nil_left (b : List Char) : distance [] b = b.length := by
  rw [distance]

@[simp]
theorem distance_nil_right (a : List Char) : distance a [] = a.length := by
  cases a with
  | nil => rw [distance]
  | cons c a => rw [distance]

theorem edits_distance (a b : List Char) : Edits (distance a b) a b := by
  induction a, b using distance.induct with
  | case1 b =>
    rw [distance_nil_left]
    induction b with
    | nil => exact .done []
    | cons d b ih => exact .step (.insert [] [] d) (ih.cons d)
  | case2 c a =>
    rw [distance_nil_right]
    induction a generalizing c with
    | nil => exact .step (.delete [] [] c) (.done [])
    | cons c' a ih => exact .step (.delete [] _ c) (ih c')
  | case3 c a d b deleted inserted kept =>
    -- the first character is deleted, another is put before it, or it is made the other one
    rw [distance]
    apply Edits.fewer
    · exact .fewer (.step (.delete [] a c) deleted) (.step (.insert [] (c :: a) d) (inserted.cons d))
    · by_cases same : c = d
      · rw [if_pos same, same]
        exact kept.cons d
      · rw [if_neg same]
        exact .step (.replace [] a c d) (kept.cons d)

theorem distance_cons_left_le (c : Char) (a b : List Char) :
    distance (c :: a) b ≤ distance a b + 1 := by
  cases b with
  | nil => simp
  | cons d b =>
    rw [distance]
    omega

theorem distance_cons_right_le (a : List Char) (d : Char) (b : List Char) :
    distance a (d :: b) ≤ distance a b + 1 := by
  cases a with
  | nil => simp
  | cons c a =>
    rw [distance]
    omega

theorem distance_le_cons_left (c : Char) (a b : List Char) :
    distance a b ≤ distance (c :: a) b + 1 := by
  induction b with
  | nil =>
    rw [distance_nil_right, distance_nil_right, List.length_cons]
    omega
  | cons d b ih =>
    have longer := distance_cons_right_le a d b
    rw [distance]
    omega

theorem distance_replace_le (c d : Char) (a b : List Char) :
    distance (c :: a) b ≤ distance (d :: a) b + 1 := by
  induction b with
  | nil => simp
  | cons e b ih =>
    rw [distance, distance]
    split <;> omega

theorem distance_behind_le {a a' : List Char} (c : Char)
    (close : ∀ b, distance a b ≤ distance a' b + 1) (b : List Char) :
    distance (c :: a) b ≤ distance (c :: a') b + 1 := by
  induction b with
  | nil => simpa using close []
  | cons d b ih =>
    have whole := close (d :: b)
    have rest := close b
    rw [distance, distance]
    omega

theorem distance_append_le {a a' : List Char} (front : List Char)
    (close : ∀ b, distance a b ≤ distance a' b + 1) :
    ∀ b, distance (front ++ a) b ≤ distance (front ++ a') b + 1 := by
  induction front with
  | nil => exact close
  | cons c front ih => exact distance_behind_le c ih

theorem Edit.distance_le {a a' : List Char} (edit : Edit a a') :
    ∀ b, distance a b ≤ distance a' b + 1 := by
  cases edit with
  | insert front back c => exact distance_append_le front (distance_le_cons_left c back)
  | delete front back c => exact distance_append_le front (distance_cons_left_le c back)
  | replace front back c d => exact distance_append_le front (distance_replace_le c d back)

theorem Edits.distance_le {n : Nat} {a b : List Char} (edits : Edits n a b) : distance a b ≤ n := by
  induction edits with
  | done a =>
    induction a with
    | nil => simp
    | cons c a ih =>
      rw [distance, if_pos rfl]
      omega
  | step edit _ ih =>
    apply Nat.le_trans (edit.distance_le _)
    omega

/-- The distances from `a` to `b` with more and more characters of a text before it. -/
def row (a b : List Char) : List Char → List Nat
  | [] => [distance a b]
  | d :: ds => distance a b :: row a (d :: b) ds

theorem row_eq_cons (a b ds : List Char) : row a b ds = distance a b :: (row a b ds).tail := by
  cases ds with
  | nil => rfl
  | cons d ds => rfl

theorem row_nil_left (b ds : List Char) : row [] b ds = List.range' b.length (ds.length + 1) := by
  induction ds generalizing b with
  | nil => simp [row]
  | cons d ds ih => simp [row, ih, List.range'_succ]

theorem getLast?_row (a b ds : List Char) :
    (row a b ds).getLast? = some (distance a (ds.reverse ++ b)) := by
  induction ds generalizing b with
  | nil => rfl
  | cons d ds ih =>
    rw [row, row_eq_cons, List.getLast?_cons_cons, ← row_eq_cons, ih]
    simp

theorem extendRow_row (c : Char) (a b ds : List Char) :
    extendRow c (distance (c :: a) b) ds (row a b ds) = (row (c :: a) b ds).tail := by
  induction ds generalizing b with
  | nil => rfl
  | cons d ds ih =>
    have next := ih (d :: b)
    rw [row_eq_cons a (d :: b) ds, distance] at next
    rw [row, row_eq_cons a (d :: b) ds, extendRow, next, ← distance, ← row_eq_cons]
    rfl

theorem nextRow_row (c : Char) (a ds : List Char) : nextRow ds (row a [] ds) c = row (c :: a) [] ds := by
  have extended := extendRow_row c a [] ds
  rw [distance_nil_right, List.length_cons] at extended
  rw [row_eq_cons a, nextRow, ← row_eq_cons a, row_eq_cons (c :: a), distance_nil_right, extended]
  simp

theorem foldl_nextRow (read a ds : List Char) :
    a.foldl (nextRow ds) (row read [] ds) = row (a.reverse ++ read) [] ds := by
  induction a generalizing read with
  | nil => rfl
  | cons c a ih =>
    rw [List.foldl_cons, nextRow_row, ih]
    simp

theorem editDistance_eq_distance (a b : String) :
    editDistance a b = distance a.toList.reverse b.toList.reverse := by
  have start : List.range (b.toList.length + 1) = row [] [] b.toList := by
    rw [row_nil_left, List.range_eq_range']
    rfl
  rw [editDistance, start, foldl_nextRow, getLast?_row]
  simp

theorem editDistance_isLeast (a b : String) :
    IsLeast {n | Edits n a.toList b.toList} (editDistance a b) := by
  -- the table is filled along the beginnings of the texts, the recurrence takes first characters
  rw [editDistance_eq_distance]
  constructor
  · exact Edits.reverse_iff.mp (edits_distance a.toList.reverse b.toList.reverse)
  · intro n edits
    exact (Edits.reverse_iff.mpr edits).distance_le

end LetPoly.Text
