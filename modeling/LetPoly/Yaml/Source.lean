import LetPoly.Yaml.Char

namespace LetPoly.Yaml

/-- A text that is read from its start and arrives in blocks. `awaited` has for each block to come
    how many characters there are with it, or nothing if one of them may not stand in a document.
    `front` is where the text stood when a block was asked for last, and `breaks` counts the line
    ends since the last character that is no blank. -/
structure Source where
  chars : Array Char
  awaited : List (Option Nat)
  known : Nat := 0
  front : Nat := 0
  mark : Mark := {}
  breaks : Nat := 0
deriving Repr

namespace Source

def blockSize : Nat := 512

def blocks (limit offset count : Nat) (clean : Bool) : List Char → List (Option Nat)
  | [] => [if clean then some count else none]
  | c :: cs =>
    let stop := offset + c.utf8Size
    if stop ≤ limit then blocks limit stop (count + 1) (clean && isAllowed c) cs
    else
      (if clean then some count else none) ::
        blocks (offset + blockSize) stop (count + 1) (isAllowed c) cs

def shortest : Nat := 3

def ofText (text : String) : Source :=
  let text := if text = "" then "\n" else text
  let (chars, offset) :=
    match text.toList with
    | '\ufeff' :: cs => (cs, shortest)
    | cs => (cs, 0)
  let awaited :=
    if text.utf8ByteSize < shortest then
      [if chars.all isAllowed then some (chars.length + 1) else none]
    else blocks blockSize offset 0 true chars
  { chars := chars.toArray, awaited }

/-- Waits for blocks until so many characters are known. The end of the text counts as one more
    each time it is met. -/
def await (wanted : Nat) : List (Option Nat) → (known : Nat) → Option (List (Option Nat) × Nat)
  | [], known => some ([], known + 1)
  | none :: _, _ => none
  | some known :: rest, _ => if wanted ≤ known then some (rest, known) else await wanted rest known

def need (s : Source) (n : Nat) : Option Source :=
  if s.mark.index + n ≤ s.known then some s
  else
    (await (s.mark.index + n) s.awaited s.known).map fun (awaited, known) =>
      { s with awaited, known, front := s.mark.index }

def charAt (s : Source) (i : Nat) : Char := s.chars[i]?.getD endChar

def ahead (s : Source) (k : Nat) : Char := s.charAt (s.mark.index + k)

def left (s : Source) : Nat := s.chars.size - s.mark.index

def skip (s : Source) : Source :=
  { s with mark := s.mark.next, breaks := if isBlank (s.ahead 0) then s.breaks else 0 }

def breakLength (s : Source) : Nat :=
  if s.ahead 0 = '\r' && s.ahead 1 = '\n' then 2 else if isBreak (s.ahead 0) then 1 else 0

def skipLine (s : Source) : Source :=
  match s.breakLength with
  | 0 => s
  | length => { s with mark := s.mark.nextLine length, breaks := s.breaks + 1 }

def atMarker (s : Source) (c : Char) : Bool :=
  s.mark.column = 0 && s.ahead 0 = c && s.ahead 1 = c && s.ahead 2 = c && isSpaceOrEnd (s.ahead 3)

def atDocumentMarker (s : Source) : Bool := s.atMarker '-' || s.atMarker '.'

end Source

abbrev Take := StateT Source Option

namespace Take

def here : Take Mark := do return (← get).mark

def need (n : Nat) : Take Unit := fun s => (s.need n).map ((), ·)

def ahead (k : Nat) : Take Char := do return (← get).ahead k

def peek : Take Char := ahead 0

def skip : Take Unit := modify Source.skip

def skipLine : Take Unit := modify Source.skipLine

def char : Take Char := do
  let c ← peek
  skip
  return c

def line : Take (List Char) := do
  let s ← get
  skipLine
  if s.breakLength = 0 then return []
  else return [if isSeparator (s.ahead 0) then s.ahead 0 else '\n']

def spanWithin (p : Char → Bool) : Nat → List Char → Take (List Char)
  | 0, seen => return seen.reverse
  | fuel + 1, seen => do
    if p (← peek) then
      let c ← char
      need 1
      spanWithin p fuel (c :: seen)
    else return seen.reverse

def span (p : Char → Bool) : Take (List Char) := do
  let s ← get
  spanWithin p s.left []

def blanks : Take Unit := do
  let _ ← Take.span isBlank

def endOfLine : Take Unit := do
  if (← peek) = '#' then
    let _ ← Take.span fun c => !isBreakOrEnd c
  guard (isBreakOrEnd (← peek))
  if isBreak (← peek) then
    need 2
    skipLine

end Take

end LetPoly.Yaml
