import LetPoly.Word

namespace LetPoly.Text

inductive NumeralError
  | malformed
  | outOfRange
deriving DecidableEq, Repr

namespace Numeral

def digit? (base : Nat) (c : Char) : Option Nat :=
  let value? :=
    if c.isDigit then some (c.toNat - '0'.toNat)
    else if c.isAlpha then some (c.toLower.toNat - 'a'.toNat + 10)
    else none
  value?.filter (· < base)

def readDigits (base : Nat) (n : Nat) : List Char → Except NumeralError Nat
  | [] => .ok n
  | c :: cs =>
    match digit? base c with
    | none => .error .malformed
    | some d =>
      if wordCount ≤ n * base + d then .error .outOfRange
      else readDigits base (n * base + d) cs

/-- The base that a numeral names for itself, and its digits. A leading zero alone means octal. -/
def splitBase : List Char → Nat × List Char
  | '0' :: c :: d :: cs =>
    if c.toLower = 'b' then (2, d :: cs)
    else if c.toLower = 'o' then (8, d :: cs)
    else if c.toLower = 'x' then (16, d :: cs)
    else (8, c :: d :: cs)
  | '0' :: cs => (8, cs)
  | cs => (10, cs)

def separated (hex : Bool) (digitBefore : Bool) : List Char → Bool
  | [] => true
  | '_' :: c :: cs =>
    digitBefore && (digit? (if hex then 16 else 10) c).isSome && separated hex true cs
  | '_' :: [] => false
  | c :: cs => separated hex (digit? (if hex then 16 else 10) c).isSome cs

def underscoresOk (cs : List Char) : Bool :=
  match cs with
  | '0' :: c :: rest =>
    if c.toLower = 'x' then separated true true rest
    else if c.toLower = 'b' || c.toLower = 'o' then separated false true rest
    else separated false true (c :: rest)
  | _ => separated false false cs

def readNat (cs : List Char) : Except NumeralError Nat :=
  if cs.isEmpty then .error .malformed
  else
    let (base, digits) := splitBase cs
    match readDigits base 0 (digits.filter (· ≠ '_')) with
    | .error e => .error e
    | .ok n => if underscoresOk cs then .ok n else .error .malformed

def readNatIn (base : Nat) (cs : List Char) : Except NumeralError Nat :=
  if cs.isEmpty then .error .malformed else readDigits base 0 cs

def readSigned (read : List Char → Except NumeralError Nat) (cs : List Char) :
    Except NumeralError Int :=
  let (negative, digits) :=
    match cs with
    | '-' :: rest => (true, rest)
    | '+' :: rest => (false, rest)
    | _ => (false, cs)
  match read digits with
  | .error e => .error e
  | .ok n =>
    if negative then
      if n ≤ wordLimit then .ok (-n) else .error .outOfRange
    else if n < wordLimit then .ok n
    else .error .outOfRange

def readInt (cs : List Char) : Except NumeralError Int := readSigned readNat cs

def readIntIn (base : Nat) (cs : List Char) : Except NumeralError Int :=
  readSigned (readNatIn base) cs

end Numeral

structure Decimal where
  negative : Bool
  digits : Nat
  exponent : Int
deriving DecidableEq, Repr

namespace Decimal

def natOfDigits (cs : List Char) : Nat :=
  cs.foldl (fun n c => n * 10 + (c.toNat - '0'.toNat)) 0

/-- The number of an exponent. Digits behind one that is far too large already do not count. -/
def exponentOfDigits (cs : List Char) : Nat :=
  cs.foldl (fun n c => if n < 10000 then n * 10 + (c.toNat - '0'.toNat) else n) 0

def readExponent : List Char → Option Int
  | [] => some 0
  | c :: cs =>
    if c ≠ 'e' && c ≠ 'E' then none
    else
      let (negative, digits) :=
        match cs with
        | '-' :: rest => (true, rest)
        | '+' :: rest => (false, rest)
        | _ => (false, cs)
      if digits.isEmpty || !digits.all Char.isDigit then none
      else
        let n : Int := exponentOfDigits digits
        some (if negative then -n else n)

def ofChars? (cs : List Char) : Option Decimal :=
  let (negative, cs) :=
    match cs with
    | '-' :: rest => (true, rest)
    | '+' :: rest => (false, rest)
    | _ => (false, cs)
  let whole := cs.takeWhile Char.isDigit
  let (fraction, rest) :=
    match cs.dropWhile Char.isDigit with
    | '.' :: rest => (rest.takeWhile Char.isDigit, rest.dropWhile Char.isDigit)
    | rest => ([], rest)
  if whole.isEmpty && fraction.isEmpty then none
  else
    (readExponent rest).map fun exponent =>
      ⟨negative, natOfDigits (whole ++ fraction), exponent - fraction.length⟩

end Decimal

end LetPoly.Text
