namespace LetPoly

def wordCount : Nat := 0x10000000000000000

/-- Signed words run from `-wordLimit` up to, but not including, `wordLimit`. -/
def wordLimit : Nat := 0x8000000000000000

def IsWord (n : Int) : Prop := -(wordLimit : Int) ≤ n ∧ n < wordLimit

instance (n : Int) : Decidable (IsWord n) :=
  inferInstanceAs (Decidable (-(wordLimit : Int) ≤ n ∧ n < wordLimit))

def wrap64 (n : Int) : Int := n.bmod wordCount

theorem wrap64_of_isWord {n : Int} (h : IsWord n) : wrap64 n = n := by
  simp only [IsWord, wordLimit] at h
  unfold wrap64
  exact Int.bmod_eq_of_le (by simp only [wordCount]; omega) (by simp only [wordCount]; omega)

theorem wrap64_wrap64_add (n k : Int) : wrap64 (wrap64 n + k) = wrap64 (n + k) :=
  Int.bmod_add_bmod

end LetPoly
