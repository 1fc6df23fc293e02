import LetPoly.Yaml.Source

namespace LetPoly.Yaml

/-- White space inside a scalar: the blanks up to the first line end, that line end, and those after
    it. `broken` says that there was a line end, even one that does not count. -/
structure Gap where
  blanks : List Char := []
  broken : Bool := false
  first : List Char := []
  more : List Char := []
deriving DecidableEq, Repr

namespace Gap

def blank (g : Gap) (c : Char) : Gap :=
  if g.broken then g else { g with blanks := g.blanks ++ [c] }

def line (g : Gap) (ending : List Char) : Gap :=
  if g.broken then { g with more := g.more ++ ending } else { broken := true, first := ending }

/-- The text that a gap stands for: a single newline folds into a space, and of several the first is
    dropped. -/
def text (g : Gap) : List Char :=
  if !g.broken then g.blanks
  else if g.first = ['\n'] then
    if g.more.isEmpty then [' '] else g.more
  else g.first ++ g.more

end Gap

namespace Take

def gapWithin (indent : Int) : Nat → Gap → Take Gap
  | 0, g => return g
  | fuel + 1, g => do
    let c ← peek
    if isBlank c then
      if g.broken && c = '\t' && (← here).column < indent then failure
      skip
      need 1
      gapWithin indent fuel (g.blank c)
    else if isBreak c then
      need 2
      let ending ← line
      need 1
      gapWithin indent fuel (g.line ending)
    else return g

def gap (indent : Int) (g : Gap) : Take Gap := do
  let s ← get
  gapWithin indent s.left g

def endsPlain (flow : Bool) (c next : Char) : Bool :=
  (c = ':' && isSpaceOrEnd next) ||
    (flow && (c = ',' || c = '?' || c = '[' || c = ']' || c = '\x7b' || c = '\x7d'))

def plainWordWithin (flow : Bool) : Nat → List Char → Take (List Char)
  | 0, seen => return seen
  | fuel + 1, seen => do
    let c ← peek
    if isSpaceOrEnd c || endsPlain flow c (← ahead 1) then return seen
    skip
    need 2
    plainWordWithin flow fuel (c :: seen)

def plainWithin (flow : Bool) (indent : Int) : Nat → List Char → Gap → Take (List Char × Gap)
  | 0, seen, g => return (seen, g)
  | fuel + 1, seen, g => do
    need 4
    if (← get).atDocumentMarker || (← peek) = '#' then return (seen, g)
    let s ← get
    let word ← plainWordWithin flow s.left []
    let (seen, g) := if word.isEmpty then (seen, g) else (word ++ (g.text.reverse ++ seen), {})
    let c ← peek
    if !isBlank c && !isBreak c then return (seen, g)
    need 1
    let g ← gap indent g
    if !flow && (← here).column < indent then return (seen, g)
    plainWithin flow indent fuel seen g

def plain (flow : Bool) (indent : Int) : Take (String × Bool) := do
  let s ← get
  let (seen, g) ← plainWithin flow indent (s.left + 1) [] {}
  return (String.ofList seen.reverse, g.broken)

def escaped? (c : Char) : Option Char :=
  match c with
  | '0' => some '\x00'
  | 'a' => some '\x07'
  | 'b' => some '\x08'
  | 't' | '\t' => some '\t'
  | 'n' => some '\n'
  | 'v' => some '\x0b'
  | 'f' => some '\x0c'
  | 'r' => some '\r'
  | 'e' => some '\x1b'
  | ' ' => some ' '
  | '"' => some '"'
  | '\'' => some '\''
  | '\\' => some '\\'
  | 'N' => some '\u0085'
  | '_' => some '\u00a0'
  | 'L' => some '\u2028'
  | 'P' => some '\u2029'
  | _ => none

def codeLength? (c : Char) : Option Nat :=
  match c with
  | 'x' => some 2
  | 'u' => some 4
  | 'U' => some 8
  | _ => none

def code : Nat → Nat → Take Nat
  | 0, value => return value
  | left + 1, value => do
    match hexValue? (← peek) with
    | none => failure
    | some digit =>
      skip
      code left (value * 16 + digit)

def escape : Take Char := do
  let c ← char
  match codeLength? c with
  | none =>
    match escaped? c with
    | none => failure
    | some c => return c
  | some length =>
    need length
    let value ← code length 0
    guard (value < 0xd800 || (0xdfff < value && value < 0x110000))
    return Char.ofNat value

def quotedWordWithin (quote : Char) : Nat → List Char → Take (List Char × Bool)
  | 0, seen => return (seen, false)
  | fuel + 1, seen => do
    let c ← peek
    let next ← ahead 1
    if isSpaceOrEnd c then return (seen, false)
    else if c = quote then
      if quote = '\'' && next = quote then
        skip
        skip
        need 2
        quotedWordWithin quote fuel (c :: seen)
      else return (seen, false)
    else if quote = '"' && c = '\\' then
      if isBreak next then
        need 3
        skip
        skipLine
        return (seen, true)
      else
        skip
        let c ← escape
        need 2
        quotedWordWithin quote fuel (c :: seen)
    else
      skip
      need 2
      quotedWordWithin quote fuel (c :: seen)

def quotedWithin (quote : Char) : Nat → List Char → Take (List Char)
  | 0, _ => failure
  | fuel + 1, seen => do
    need 4
    guard (!(← get).atDocumentMarker && (← peek) ≠ endChar)
    let s ← get
    let (seen, broken) ← quotedWordWithin quote s.left seen
    need 1
    if (← peek) = quote then
      skip
      return seen
    let g ← gap 0 { broken }
    quotedWithin quote fuel (g.text.reverse ++ seen)

def quoted : Take String := do
  let quote ← char
  let s ← get
  return String.ofList (← quotedWithin quote (s.left + 1) []).reverse

end Take

end LetPoly.Yaml
