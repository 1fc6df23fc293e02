import LetPoly.Text.Width
import Mathlib.Data.String.Basic

namespace LetPoly.Text

def measure (e : ClusterEnd) (taken : Nat) : List Char → Nat
  | [] => taken
  | c :: cs =>
    let next := BreakClass.ofChar c
    if e.joins next then measure (e.push next) (if taken = 0 then charWidth c else taken) cs
    else taken + measure (.start next) (charWidth c) cs

def charsWidth : List Char → Nat
  | [] => 0
  | c :: cs => measure (.start (.ofChar c)) (charWidth c) cs

theorem clusterWidth_append (cs more : List Char) :
    clusterWidth (cs ++ more) =
      if clusterWidth cs = 0 then clusterWidth more else clusterWidth cs := by
  induction cs with
  | nil => simp [clusterWidth]
  | cons c cs ih =>
    by_cases empty : charWidth c = 0
    · simpa [clusterWidth, empty] using ih
    · simp [clusterWidth, empty]

theorem clusterWidth_singleton (c : Char) : clusterWidth [c] = charWidth c := by
  simp +contextual [clusterWidth]

theorem sum_clustersFrom (e : ClusterEnd) (current cs : List Char) :
    (clustersFrom e current cs).foldr (fun cluster n => clusterWidth cluster + n) 0 =
      measure e (clusterWidth current.reverse) cs := by
  induction cs generalizing e current with
  | nil => simp [clustersFrom, measure]
  | cons c cs ih =>
    simp only [clustersFrom, measure]
    split
    · rw [ih, List.reverse_cons, clusterWidth_append, clusterWidth_singleton]
    · rw [List.foldr_cons, ih, List.reverse_singleton, clusterWidth_singleton]

theorem width_eq (s : String) : width s = charsWidth s.toList := by
  rw [width]
  cases s.toList with
  | nil => rfl
  | cons c cs => rw [clusters, sum_clustersFrom, List.reverse_singleton, clusterWidth_singleton,
      charsWidth]

theorem charWidth_le_utf8Size (c : Char) : charWidth c ≤ c.utf8Size := by
  have one : 1 ≤ c.utf8Size := c.utf8Size_pos
  have two : 0x300 ≤ c.toNat → c.utf8Size ≠ 1 := by
    intro large single
    have small : c.toNat ≤ 127 := Char.utf8Size_eq_one_iff.mp single
    omega
  simp only [charWidth]
  grind

theorem measure_le (e : ClusterEnd) (taken : Nat) (cs : List Char) :
    measure e taken cs ≤ taken + String.utf8Len cs := by
  induction cs generalizing e taken with
  | nil => simp [measure]
  | cons c cs ih =>
    have first := charWidth_le_utf8Size c
    have joined := ih (e.push (.ofChar c)) (if taken = 0 then charWidth c else taken)
    have split := ih (.start (.ofChar c)) (charWidth c)
    simp only [measure, String.utf8Len]
    grind

theorem width_le_utf8ByteSize (s : String) : width s ≤ s.utf8ByteSize := by
  rw [width_eq, ← String.utf8Len_toList]
  cases s.toList with
  | nil => simp [charsWidth]
  | cons c cs =>
    have first := charWidth_le_utf8Size c
    have rest := measure_le (.start (.ofChar c)) (charWidth c) cs
    simp only [charsWidth, String.utf8Len]
    omega

theorem regional_bounds {c : Char} (regional : BreakClass.ofChar c = .regional) :
    0x1f1e6 ≤ c.toNat ∧ c.toNat ≤ 0x1f1ff := by
  have korean : (BreakClass.korean? c.toNat).getD .other ≠ .regional := by
    simp only [BreakClass.korean?]
    split_ifs <;> simp
  simp only [BreakClass.ofChar] at regional
  grind

theorem Ranges.has_eq_false {ranges : Ranges} {low high n : Nat}
    (apart : ∀ range ∈ ranges, range.2 < low ∨ high < range.1) (inside : low ≤ n ∧ n ≤ high) :
    ranges.has n = false := by
  simp only [Ranges.has, List.any_eq_false]
  intro range member
  have := apart range member
  grind

theorem charWidth_regional {c : Char} (regional : BreakClass.ofChar c = .regional) :
    charWidth c = 1 := by
  have bounds := regional_bounds regional
  have visible : zeroWidthRanges.has c.toNat = false := Ranges.has_eq_false (by decide) bounds
  have narrow : wideRanges.has c.toNat = false := Ranges.has_eq_false (by decide +kernel) bounds
  simp only [charWidth, visible, narrow]
  grind

theorem charWidth_pos {c : Char} (regional : BreakClass.ofChar c = .regional) :
    0 < charWidth c := by
  rw [charWidth_regional regional]
  exact Nat.one_pos

/-- Two readings of one text of which the second began later, so that it may end clusters that the
    first goes on with. What the first has taken is at most `more` above the second. -/
structure Tracks (more : Nat) (e : ClusterEnd) (taken : Nat) (e' : ClusterEnd) (taken' : Nat) :
    Prop where
  last : e.last = e'.last
  core : e'.core = .pictograph → e.core = .pictograph
  total : taken ≤ more + taken'
  empty : taken = 0 → taken' = 0
  regional : e.last = .regional → 0 < taken ∧ (e.flag = true → e'.flag = true ∨ taken ≤ more)

namespace Tracks

variable {more taken taken' : Nat} {e e' : ClusterEnd} {c : Char}

theorem push (tracks : Tracks more e taken e' taken') (c : Char) :
    Tracks more (e.push (.ofChar c)) (if taken = 0 then charWidth c else taken)
      (e'.push (.ofChar c)) (if taken' = 0 then charWidth c else taken') where
  last := rfl
  core := by
    have := tracks.core
    simp only [ClusterEnd.push]
    grind
  total := by
    have := tracks.total
    have := tracks.empty
    grind
  empty := by
    have := tracks.empty
    grind
  regional same := by
    have visible := charWidth_regional same
    have last := tracks.last
    simp only [ClusterEnd.push]
    grind

theorem enter (total : taken ≤ more) (regional : e.last = .regional → 0 < taken) (c : Char) :
    Tracks more (e.push (.ofChar c)) (if taken = 0 then charWidth c else taken)
      (.start (.ofChar c)) (charWidth c) where
  last := rfl
  core := by
    simp only [ClusterEnd.push, ClusterEnd.start]
    grind
  total := by grind
  empty := by grind
  regional same := by
    have visible := charWidth_regional same
    simp only [ClusterEnd.push]
    grind

theorem flags_of_joined (tracks : Tracks more e taken e' taken')
    (split : e.joins (.ofChar c) = false) (joined : e'.joins (.ofChar c) = true) :
    BreakClass.ofChar c = .regional ∧ taken ≤ more := by
  have last := tracks.last
  have core := tracks.core
  have regional := tracks.regional
  simp only [ClusterEnd.joins] at joined split
  grind

theorem leave (tracks : Tracks more e taken e' taken') (split : e.joins (.ofChar c) = false)
    (joined : e'.joins (.ofChar c) = true) :
    Tracks (more - taken) (.start (.ofChar c)) (charWidth c) (e'.push (.ofChar c))
      (if taken' = 0 then charWidth c else taken') := by
  obtain ⟨regional, spare⟩ := tracks.flags_of_joined split joined
  have one := charWidth_regional regional
  constructor
  case last => rfl
  case core =>
    simp only [ClusterEnd.push, regional]
    grind
  case total => grind
  case empty => grind
  case regional =>
    simp only [ClusterEnd.start]
    grind

theorem measure_le (tracks : Tracks more e taken e' taken') (cs : List Char) :
    measure e taken cs ≤ more + measure e' taken' cs := by
  induction cs generalizing more taken taken' e e' with
  | nil => exact tracks.total
  | cons c cs ih =>
    simp only [measure]
    cases joins : e.joins (.ofChar c) <;> cases joins' : e'.joins (.ofChar c)
    case true.true => exact ih (tracks.push c)
    case false.false =>
      have := tracks.total
      grind
    case true.false =>
      have entered := ih (enter tracks.total (fun same => (tracks.regional same).1) c)
      grind
    case false.true =>
      obtain ⟨-, spare⟩ := tracks.flags_of_joined joins joins'
      have left := ih (tracks.leave joins joins')
      grind

end Tracks

theorem measure_append_le {e : ClusterEnd} {taken : Nat}
    (regional : e.last = .regional → 0 < taken) (cs more : List Char) :
    measure e taken (cs ++ more) ≤ measure e taken cs + charsWidth more := by
  induction cs generalizing e taken with
  | nil =>
    cases more with
    | nil => simp [charsWidth]
    | cons c more =>
      simp only [List.nil_append, measure, charsWidth]
      split
      · exact (Tracks.enter le_rfl regional c).measure_le more
      · exact le_rfl
  | cons c cs ih =>
    simp only [List.cons_append, measure]
    split
    · apply ih
      intro same
      have := charWidth_pos same
      grind
    · have := ih (e := .start (.ofChar c)) charWidth_pos
      grind

/-- Putting texts together can only join clusters. -/
theorem width_append_le (s t : String) : width (s ++ t) ≤ width s + width t := by
  simp only [width_eq, String.toList_append]
  cases s.toList with
  | nil => simp [charsWidth]
  | cons c cs => exact measure_append_le (e := .start (.ofChar c)) charWidth_pos cs t.toList

end LetPoly.Text
