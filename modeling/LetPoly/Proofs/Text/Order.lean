import Mathlib.Data.String.Basic
import Mathlib.Tactic.SplitIfs

namespace LetPoly.Text

def bytes (s : String) : List UInt8 := s.toByteArray.data.toList

theorem bytes_eq_flatMap (s : String) : bytes s = s.toList.flatMap String.utf8EncodeChar := by
  rw [bytes, ← String.utf8Encode_toList, List.utf8Encode, List.data_toByteArray]

def extraBytes (v : Nat) : Nat :=
  if v ≤ 0x7f then 0 else if v ≤ 0x7ff then 1 else if v ≤ 0xffff then 2 else 3

def leadByte (v : Nat) : Nat :=
  if v ≤ 0x7f then v
  else if v ≤ 0x7ff then v / 64 + 0xc0
  else if v ≤ 0xffff then v / 64 ^ 2 + 0xe0
  else v / 64 ^ 3 + 0xf0

def trailBytes : Nat → Nat → List UInt8
  | 0, _ => []
  | n + 1, v => trailBytes n (v / 64) ++ [UInt8.ofNat (v % 64 + 0x80)]

theorem toNat_lt (c : Char) : c.toNat < 0x110000 := by
  have valid := c.valid
  simp only [UInt32.isValidChar, Nat.isValidChar] at valid
  show c.val.toNat < _
  omega

theorem encode_eq_lead_trail (c : Char) :
    String.utf8EncodeChar c =
      UInt8.ofNat (leadByte c.toNat) :: trailBytes (extraBytes c.toNat) c.toNat := by
  have bound := toNat_lt c
  have value : c.val.toNat = c.toNat := rfl
  simp only [String.utf8EncodeChar, leadByte, extraBytes, value]
  generalize c.toNat = v at bound ⊢
  split_ifs
  · rfl
  · rw [Nat.mod_eq_of_lt (show v / 64 < 0x20 by omega)]
    rfl
  · rw [Nat.mod_eq_of_lt (show v / 4096 < 0x10 by omega)]
    rfl
  · rw [Nat.mod_eq_of_lt (show v / 262144 < 0x08 by omega),
      show v / 4096 = v / 64 / 64 by omega]
    rfl

theorem byte_lt {a b : Nat} {xs ys : List UInt8} (ha : a < 256) (hb : b < 256)
    (less : a < b ∨ a = b ∧ xs < ys) : UInt8.ofNat a :: xs < UInt8.ofNat b :: ys := by
  apply List.cons_lt_cons_iff.mpr
  rcases less with less | ⟨same, less⟩
  · left
    rw [UInt8.lt_iff_toNat_lt, UInt8.toNat_ofNat', UInt8.toNat_ofNat']
    omega
  · exact .inr ⟨congrArg UInt8.ofNat same, less⟩

theorem trailBytes_lt {n v w : Nat} (less : v < w) (same : v / 64 ^ n = w / 64 ^ n)
    (xs ys : List UInt8) : trailBytes n v ++ xs < trailBytes n w ++ ys := by
  induction n generalizing v w xs ys with
  | zero => omega
  | succ n ih =>
    simp only [trailBytes, List.append_assoc]
    by_cases upper : v / 64 = w / 64
    · rw [upper]
      apply List.append_left_lt
      exact byte_lt (by omega) (by omega) (.inl (by omega))
    · apply ih (by omega)
      rw [Nat.div_div_eq_div_mul, Nat.div_div_eq_div_mul, ← Nat.pow_succ']
      exact same

theorem leadByte_lt {v w : Nat} (less : v < w) (bound : w < 0x110000) :
    leadByte v < leadByte w ∨ leadByte v = leadByte w ∧ extraBytes v = extraBytes w ∧
      v / 64 ^ extraBytes w = w / 64 ^ extraBytes w := by
  unfold leadByte extraBytes
  split_ifs <;> omega

theorem leadByte_small {v : Nat} (bound : v < 0x110000) : leadByte v < 256 := by
  unfold leadByte
  split_ifs <;> omega

theorem encode_lt {c d : Char} (less : c < d) (xs ys : List UInt8) :
    String.utf8EncodeChar c ++ xs < String.utf8EncodeChar d ++ ys := by
  have less : c.toNat < d.toNat := less
  rw [encode_eq_lead_trail, encode_eq_lead_trail]
  apply byte_lt (leadByte_small (toNat_lt c)) (leadByte_small (toNat_lt d))
  rcases leadByte_lt less (toNat_lt d) with first | ⟨first, extra, upper⟩
  · exact .inl first
  · right
    rw [extra]
    exact ⟨first, trailBytes_lt less upper xs ys⟩

theorem flatMap_encode_lt {cs ds : List Char} (less : cs < ds) :
    cs.flatMap String.utf8EncodeChar < ds.flatMap String.utf8EncodeChar := by
  induction cs generalizing ds with
  | nil =>
    cases ds with
    | nil => exact absurd less (List.not_lt_nil [])
    | cons d ds =>
      rw [List.flatMap_cons, encode_eq_lead_trail]
      exact List.nil_lt_cons _ _
  | cons c cs ih =>
    cases ds with
    | nil => exact absurd less (List.not_lt_nil _)
    | cons d ds =>
      rw [List.flatMap_cons, List.flatMap_cons]
      rcases List.cons_lt_cons_iff.mp less with first | ⟨rfl, rest⟩
      · exact encode_lt first _ _
      · exact List.append_left_lt (ih rest)

theorem bytes_lt_iff (a b : String) : bytes a < bytes b ↔ a < b := by
  have mono : ∀ a b : String, a < b → bytes a < bytes b := by
    intro a b less
    rw [bytes_eq_flatMap, bytes_eq_flatMap]
    exact flatMap_encode_lt less
  constructor
  · intro less
    rcases lt_trichotomy a b with below | same | above
    · exact below
    · exact absurd (same ▸ less) (List.lt_irrefl _)
    · exact absurd (mono b a above) (List.lt_asymm less)
  · exact mono a b

end LetPoly.Text
