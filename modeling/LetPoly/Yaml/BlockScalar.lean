import LetPoly.Yaml.FlowScalar

namespace LetPoly.Yaml

inductive Chomping
  | strip
  | clip
  | keep
deriving DecidableEq, Repr

/-- The first line of a block scalar: its chomping, and by how much it is indented, where zero
    leaves that to the text. -/
structure BlockHeader where
  chomping : Chomping := .clip
  indent : Nat := 0
deriving DecidableEq, Repr

namespace Take

def chomping? (c : Char) : Option Chomping :=
  if c = '+' then some .keep else if c = '-' then some .strip else none

def blockIndent : Take Nat := do
  let c ← peek
  if !c.isDigit then return 0
  guard (c ≠ '0')
  skip
  return c.toNat - '0'.toNat

def blockHeader : Take BlockHeader := do
  need 1
  match chomping? (← peek) with
  | some chomping =>
    skip
    need 1
    return { chomping, indent := ← blockIndent }
  | none =>
    let indent ← blockIndent
    if indent = 0 then return {}
    need 1
    match chomping? (← peek) with
    | none => return { indent }
    | some chomping =>
      skip
      return { chomping, indent }

def spacesWithin (indent : Nat) : Nat → Take Unit
  | 0 => return
  | fuel + 1 => do
    if (indent = 0 || (← here).column < indent) && (← peek) = ' ' then
      skip
      need 1
      spacesWithin indent fuel

def emptyLinesWithin (indent : Nat) : Nat → Nat → List Char → Take (Nat × List Char)
  | 0, widest, ends => return (widest, ends)
  | fuel + 1, widest, ends => do
    need 1
    let s ← get
    spacesWithin indent s.left
    let column := (← here).column
    let widest := max widest column
    if (indent = 0 || column < indent) && (← peek) = '\t' then failure
    if !isBreak (← peek) then return (widest, ends)
    need 2
    let ending ← line
    emptyLinesWithin indent fuel widest (ending ++ ends)

def emptyLines (least indent : Nat) : Take (Nat × List Char) := do
  let s ← get
  let (widest, ends) ← emptyLinesWithin indent (s.left + 1) 0 []
  return (if indent = 0 then max widest least else indent, ends.reverse)

/-- Reads the lines of a block scalar. `seen` holds its text so far, the last character first,
    `ending` the line end behind it and `ends` those of the empty lines that follow. `indented` says
    that its last line starts with a blank. Folding joins two lines by a space, if neither starts
    with a blank. -/
def blockLinesWithin (folded : Bool) (least indent : Nat) :
    Nat → (seen ending ends : List Char) → (indented : Bool) →
      Take (List Char × List Char × List Char)
  | 0, seen, ending, ends, _ => return (seen, ending, ends)
  | fuel + 1, seen, ending, ends, indented => do
    let c ← peek
    if (← here).column ≠ indent || c = endChar then return (seen, ending, ends)
    let joined :=
      if folded && !indented && !isBlank c && ending = ['\n'] then
        if ends.isEmpty then [' '] else ends
      else ending ++ ends
    let text ← Take.span fun c => !isBreakOrEnd c
    need 2
    let ending ← line
    let (_, ends) ← emptyLines least indent
    blockLinesWithin folded least indent fuel (text.reverse ++ (joined.reverse ++ seen)) ending ends
      (isBlank c)

def blockText (folded : Bool) (outer : Int) (header : BlockHeader) : Take String := do
  let least := (max (outer + 1) 1).toNat
  let indent := if header.indent = 0 then 0 else (max outer 0).toNat + header.indent
  let (indent, ends) ← emptyLines least indent
  need 1
  let s ← get
  let (seen, ending, ends) ← blockLinesWithin folded least indent (s.left + 1) [] [] ends false
  let tail :=
    match header.chomping with
    | .strip => []
    | .clip => ending
    | .keep => ending ++ ends
  return String.ofList (seen.reverse ++ tail)

end Take

end LetPoly.Yaml
