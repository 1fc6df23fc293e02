import LetPoly.Word

namespace LetPoly

structure Binary64 where
  bits : UInt64
deriving DecidableEq, Repr

namespace Binary64

/-- What the bits say. A finite number is `mantissa * 2 ^ exponent`, up to its sign. -/
inductive Value
  | nan
  | infinite (negative : Bool)
  | finite (negative : Bool) (mantissa : Nat) (exponent : Int)
deriving DecidableEq, Repr

def hiddenBit : Nat := 0x10000000000000

def minExponent : Int := -1074

def maxExponent : Int := 971

def value (x : Binary64) : Value :=
  let n := x.bits.toNat
  let negative : Bool := wordLimit ≤ n
  let exponent : Nat := n / hiddenBit % 2048
  let fraction : Nat := n % hiddenBit
  if exponent = 2047 then
    if fraction = 0 then .infinite negative else .nan
  else if exponent = 0 then .finite negative fraction minExponent
  else .finite negative (hiddenBit + fraction) (minExponent + exponent - 1)

def ofParts (negative : Bool) (exponent fraction : Nat) : Binary64 :=
  ⟨UInt64.ofNat ((if negative then wordLimit else 0) + exponent * hiddenBit + fraction)⟩

def nan : Binary64 := ofParts false 2047 0x8000000000001

def infinite (negative : Bool) : Binary64 := ofParts negative 2047 0

structure Ratio where
  num : Nat
  den : Nat

namespace Ratio

def scaled (n base : Nat) (exponent : Int) : Ratio :=
  if 0 ≤ exponent then ⟨n * Nat.pow base exponent.toNat, 1⟩ else ⟨n, Nat.pow base (-exponent).toNat⟩

def le (a b : Ratio) : Bool := a.num * b.den ≤ b.num * a.den

def lt (a b : Ratio) : Bool := a.num * b.den < b.num * a.den

def unscale (a : Ratio) (base : Nat) (exponent : Int) : Ratio :=
  if 0 ≤ exponent then ⟨a.num, a.den * Nat.pow base exponent.toNat⟩
  else ⟨a.num * Nat.pow base (-exponent).toNat, a.den⟩

def floor (a : Ratio) : Nat := a.num / a.den

/-- The nearest natural. A half goes to the even neighbour. -/
def round (a : Ratio) : Nat :=
  let below := a.floor
  let twice := 2 * (a.num % a.den)
  if a.den < twice || (a.den = twice && below % 2 = 1) then below + 1 else below

end Ratio

/-- The number nearest to a positive fraction, or none if it is too large. -/
def ofRatio? (negative : Bool) (a : Ratio) : Option Binary64 :=
  let guess := max minExponent ((a.num.log2 : Int) - a.den.log2 - 53)
  let exponent := if 2 * hiddenBit ≤ (a.unscale 2 guess).floor then guess + 1 else guess
  let mantissa := (a.unscale 2 exponent).round
  let (mantissa, exponent) :=
    if mantissa = 2 * hiddenBit then (hiddenBit, exponent + 1) else (mantissa, exponent)
  if maxExponent < exponent then none
  else if mantissa < hiddenBit then some (ofParts negative 0 mantissa)
  else some (ofParts negative (exponent - minExponent + 1).toNat (mantissa - hiddenBit))

def ofDecimal? (negative : Bool) (digits : Nat) (exponent : Int) : Option Binary64 :=
  let magnitude := ((Nat.toDigits 10 digits).length : Int) + exponent
  if digits = 0 || magnitude < -330 then some (ofParts negative 0 0)
  else if 310 < magnitude then none
  else ofRatio? negative (.scaled digits 10 exponent)

def ofInt (n : Int) : Binary64 :=
  (ofDecimal? (n < 0) n.natAbs 0).getD (infinite (n < 0))

end Binary64

end LetPoly
