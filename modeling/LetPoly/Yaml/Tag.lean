import LetPoly.Text.Bytes
import LetPoly.Yaml.Source

namespace LetPoly.Yaml

inductive Directive
  | version (major minor : Nat)
  | handle (name start : String)
deriving DecidableEq, Repr

namespace Take

def bytesBehind? (byte : Nat) : Option Nat :=
  if byte < 0x80 then some 0
  else if 0xc0 ≤ byte && byte < 0xe0 then some 1
  else if 0xe0 ≤ byte && byte < 0xf0 then some 2
  else if 0xf0 ≤ byte && byte < 0xf8 then some 3
  else none

def escapedByte : Take Nat := do
  need 3
  match ← peek, hexValue? (← ahead 1), hexValue? (← ahead 2) with
  | '%', some high, some low =>
    skip
    skip
    skip
    return high * 16 + low
  | _, _, _ => failure

def bytesBehind : Nat → Take (List Nat)
  | 0 => return []
  | left + 1 => do
    let byte ← escapedByte
    guard (0x80 ≤ byte && byte < 0xc0)
    return byte :: (← bytesBehind left)

def escapedChar : Take (List Char) := do
  let byte ← escapedByte
  match bytesBehind? byte with
  | none => failure
  | some more => return Text.ofBytes (byte :: (← bytesBehind more))

def isTagChar (c : Char) : Bool := isNameChar c || ";/?:@&=+$,.!~*'()[]%".toList.contains c

def tagTextWithin : Nat → List Char → Take (List Char)
  | 0, seen => return seen.reverse
  | fuel + 1, seen => do
    let c ← peek
    if !isTagChar c then return seen.reverse
    let text ← if c = '%' then escapedChar else ([·]) <$> char
    need 1
    tagTextWithin fuel (text.reverse ++ seen)

def tagText : Take (List Char) := do
  need 1
  let s ← get
  tagTextWithin s.left []

def tagHandle : Take (List Char) := do
  need 1
  guard ((← peek) = '!')
  skip
  need 1
  let name ← Take.span isNameChar
  if (← peek) = '!' then
    skip
    return '!' :: (name ++ ['!'])
  else return '!' :: name

/-- A tag, given by its handle and the text behind that. One in angle brackets and a lone
    exclamation mark have no handle. -/
def tag : Take (String × String) := do
  need 2
  let (handle, text) ←
    if (← ahead 1) = '<' then do
      skip
      skip
      let text ← tagText
      guard (!text.isEmpty && (← peek) = '>')
      skip
      pure ([], text)
    else do
      let start ← tagHandle
      if 1 < start.length && start.getLast? = some '!' then
        let text ← tagText
        guard (!text.isEmpty)
        pure (start, text)
      else
        let text := start.drop 1 ++ (← tagText)
        pure (if text.isEmpty then ([], start) else (['!'], text))
  need 1
  guard (isSpaceOrEnd (← peek))
  return (String.ofList handle, String.ofList text)

def versionNumber : Take Nat := do
  need 1
  let digits ← Take.span Char.isDigit
  guard (!digits.isEmpty && digits.length ≤ 2)
  return digits.foldl (fun n c => n * 10 + (c.toNat - '0'.toNat)) 0

def version : Take Directive := do
  need 1
  blanks
  let major ← versionNumber
  guard ((← peek) = '.')
  skip
  return .version major (← versionNumber)

def handleDirective : Take Directive := do
  need 1
  blanks
  let handle ← tagHandle
  guard (handle = ['!'] || handle.getLast? = some '!')
  need 1
  guard (isBlank (← peek))
  blanks
  let start ← tagText
  guard (!start.isEmpty)
  need 1
  guard (isSpaceOrEnd (← peek))
  return .handle (String.ofList handle) (String.ofList start)

def directive : Take Directive := do
  skip
  need 1
  let name ← Take.span isNameChar
  guard (!name.isEmpty && isSpaceOrEnd (← peek))
  let d ←
    if name = "YAML".toList then version
    else if name = "TAG".toList then handleDirective
    else failure
  need 1
  blanks
  endOfLine
  return d

end Take

end LetPoly.Yaml
