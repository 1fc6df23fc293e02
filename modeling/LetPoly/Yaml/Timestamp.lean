import LetPoly.Text.Calendar

namespace LetPoly.Yaml

namespace Timestamp

def readNumber : List Char → Option (Nat × List Char)
  | a :: b :: cs =>
    if !a.isDigit then none
    else if b.isDigit then some ((a.toNat - 48) * 10 + (b.toNat - 48), cs)
    else some (a.toNat - 48, b :: cs)
  | [a] => if a.isDigit then some (a.toNat - 48, []) else none
  | [] => none

def readChar (c : Char) : List Char → Option (List Char)
  | d :: cs => if c = d then some cs else none
  | [] => none

def readDate (cs : List Char) : Option (List Char) := do
  let digits := cs.takeWhile Char.isDigit
  guard (digits.length = 4)
  let year := digits.foldl (fun n c => n * 10 + (c.toNat - 48)) 0
  let cs ← readChar '-' (cs.drop 4)
  let (month, cs) ← readNumber cs
  let cs ← readChar '-' cs
  let (day, cs) ← readNumber cs
  guard (Text.Calendar.isDay year month day)
  return cs

def dropFraction : List Char → List Char
  | p :: d :: cs =>
    if (p = '.' || p = ',') && d.isDigit then cs.dropWhile Char.isDigit else p :: d :: cs
  | cs => cs

def readTime (cs : List Char) : Option (List Char) := do
  let (hour, cs) ← readNumber cs
  guard (hour < 24)
  let (minute, cs) ← readNumber (← readChar ':' cs)
  guard (minute < 60)
  let (second, cs) ← readNumber (← readChar ':' cs)
  guard (second < 60)
  return dropFraction cs

def isZone : List Char → Bool
  | ['Z'] => true
  | [sign, a, b, ':', c, d] =>
    (sign = '+' || sign = '-') && [a, b, c, d].all Char.isDigit &&
      (a.toNat - 48) * 10 + (b.toNat - 48) ≤ 24 && (c.toNat - 48) * 10 + (d.toNat - 48) ≤ 60
  | _ => false

end Timestamp

/-- A date, or a date and a time: with a zone behind a `T`, and without one behind a space. -/
def isTimestamp (cs : List Char) : Bool :=
  match Timestamp.readDate cs with
  | none => false
  | some [] => true
  | some (c :: rest) =>
    if c = 'T' || c = 't' then (Timestamp.readTime rest).any Timestamp.isZone
    else if c = ' ' then (Timestamp.readTime (rest.dropWhile (· = ' '))).any List.isEmpty
    else false

end LetPoly.Yaml
