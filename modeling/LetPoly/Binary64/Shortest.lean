import LetPoly.Binary64.Basic

namespace LetPoly.Binary64

structure Decimal where
  digits : Nat
  exponent : Int
deriving DecidableEq, Repr

structure Interval where
  lower : Ratio
  upper : Ratio
  closed : Bool

def Interval.has (i : Interval) (a : Ratio) : Bool :=
  if i.closed then i.lower.le a && a.le i.upper else i.lower.lt a && a.lt i.upper

/-- The next number below a power of two is half as far away as the next one above. -/
def readInterval (mantissa : Nat) (exponent : Int) : Interval :=
  let below := if mantissa = hiddenBit && minExponent < exponent then 1 else 2
  { lower := .scaled (4 * mantissa - below) 2 (exponent - 2)
    upper := .scaled (4 * mantissa + 2) 2 (exponent - 2)
    closed := mantissa % 2 = 0 }

def floorLog10 (a : Ratio) : Int :=
  let guess := (((a.num.log2 : Int) - a.den.log2) * 30103).fdiv 100000
  let powers := [guess + 2, guess + 1, guess, guess - 1]
  (powers.find? fun k => (Ratio.scaled 1 10 k).le a).getD (guess - 2)

/-- Of the multiples of `10 ^ place` that lie in the interval, the one nearest to the fraction. An
    exact tie goes to the even one. -/
def nearestOnGrid (a : Ratio) (i : Interval) (place : Int) : Option Nat :=
  let below := (a.unscale 10 place).floor
  let reads (n : Nat) := i.has (.scaled n 10 place)
  match reads below, reads (below + 1) with
  | true, true => some (a.unscale 10 place).round
  | true, false => some below
  | false, true => some (below + 1)
  | false, false => none

def dropZeros : Nat → Decimal → Decimal
  | fuel + 1, ⟨digits, exponent⟩ =>
    if digits ≠ 0 && digits % 10 = 0 then dropZeros fuel ⟨digits / 10, exponent + 1⟩
    else ⟨digits, exponent⟩
  | 0, d => d

def shortest (mantissa : Nat) (exponent : Int) : Decimal :=
  let a := Ratio.scaled mantissa 2 exponent
  let i := readInterval mantissa exponent
  let top := floorLog10 a
  let found := (List.range 17).findSome? fun (n : Nat) =>
    (nearestOnGrid a i (top - n)).map fun digits => dropZeros 18 ⟨digits, top - n⟩
  found.getD ⟨(a.unscale 10 (top - 16)).floor, top - 16⟩

def isPositional (power : Int) : Bool := -4 ≤ power && power < 6

def pointAfter (n : Nat) (digits : List Char) : List Char :=
  if digits.length ≤ n then digits ++ List.replicate (n - digits.length) '0'
  else digits.take n ++ '.' :: digits.drop n

def exponentText (power : Int) : List Char :=
  let digits := Nat.toDigits 10 power.natAbs
  (if power < 0 then '-' else '+') :: (if digits.length < 2 then '0' :: digits else digits)

def decimalText (d : Decimal) : List Char :=
  let digits := Nat.toDigits 10 d.digits
  let power := d.exponent + digits.length - 1
  if !isPositional power then pointAfter 1 digits ++ 'e' :: exponentText power
  else if power < 0 then '0' :: '.' :: List.replicate (-power - 1).toNat '0' ++ digits
  else pointAfter (power + 1).toNat digits

def toText (x : Binary64) : String :=
  match x.value with
  | .nan => "NaN"
  | .infinite negative => if negative then "-Inf" else "+Inf"
  | .finite negative mantissa exponent =>
    let digits := if mantissa = 0 then ['0'] else decimalText (shortest mantissa exponent)
    String.ofList (if negative then '-' :: digits else digits)

def toLiteral (x : Binary64) : String :=
  let text := x.toText
  if text.any fun c => c = '.' || c = 'e' || c = 'I' || c = 'N' then text else text ++ ".0"

/-- The integer part of a number, if it is below `2 ^ 63` or equal to it. Numbers that no 64-bit
    word holds all give the least one. -/
def toWord? (x : Binary64) : Option Int :=
  match x.value with
  | .nan => none
  | .infinite negative => if negative then some (-wordLimit) else none
  | .finite negative mantissa exponent =>
    let whole : Int := (Ratio.scaled mantissa 2 exponent).floor
    let n := if negative then -whole else whole
    if (Ratio.scaled mantissa 2 exponent).le ⟨wordLimit, 1⟩ || negative then
      some (if IsWord n then n else -wordLimit)
    else none

end LetPoly.Binary64
