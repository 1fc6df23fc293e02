import LetPoly.Yaml.Token

namespace LetPoly.Yaml

/-- A run of comments. It was met in white space from the index `scan` on, stands from one place up
    to the index `stop`, and belongs to the token at the index `owner`. A `head` belongs to what
    follows it, and an `inline` comment stands behind a token on its line. -/
structure Comment where
  owner : Nat
  scan : Nat := 0
  start : Mark := {}
  stop : Nat := 0
  head : Bool := false
  inline : Bool := false
deriving DecidableEq, Repr, Inhabited

/-- Where a search for comments stands. It is `offset` characters ahead of the source, in a line and
    column of its own count. `text` says that comments have been read since the last ones were kept,
    `first` that no empty line was met yet and `empty` that the line before was one. `torn` says
    that the character before is a line end of several bytes, at which the search stops. -/
structure CommentSearch where
  offset : Nat := 0
  line : Nat
  column : Nat
  scan : Nat
  owner : Nat
  start : Mark := {}
  text : Bool := false
  first : Bool
  empty : Bool := false
  torn : Bool := false
  found : List Comment := []
deriving Repr

/-- What the comments are searched in: brackets, or a block at a column. `footLine` is the line of a
    comment that still belongs to what stands before it, and `behindColon` says that this is a
    colon. -/
structure CommentPlace where
  flow : Bool
  indent : Nat
  footLine : Nat
  behindColon : Bool
deriving Repr

namespace CommentSearch

def keepFoot (c : CommentSearch) (here : Mark) : CommentSearch :=
  let stop := here.index + c.offset
  { c with
    found := ⟨c.owner, c.scan, c.start, stop, false, false⟩ :: c.found
    scan := stop
    owner := stop
    text := false }

def keepHead (c : CommentSearch) (here : Mark) : CommentSearch :=
  if c.text then
    { c with
      found := ⟨c.start.index, c.scan, c.start, here.index + c.offset - 1, true, false⟩ :: c.found }
  else c

def isOutside (p : CommentPlace) (c : CommentSearch) : Bool := c.start.column < p.indent + 1

def endRun (p : CommentPlace) (close : Bool) (here : Mark) (c : CommentSearch) : CommentSearch :=
  let foot := c.first && ((c.start.line = p.footLine && !p.behindColon) || c.isOutside p)
  if c.text && (close || (!c.empty && foot)) then
    keepFoot (if c.isOutside p then { c with owner := c.start.index } else c) here
  else c

end CommentSearch

namespace Take

def commentWithin (start : Nat) : Nat → Take Unit
  | 0 => return
  | fuel + 1 => do
    need 1
    let c ← peek
    if !isBreakOrEnd c then
      skip
      commentWithin start fuel
    else if (← here).index < start then
      need 2
      skipLine
      commentWithin start fuel

def comment (offset : Nat) : Take Unit := do
  let s ← get
  commentWithin (s.mark.index + offset) (s.left + 1)

def commentReach : Nat := 512

def commentsWithin (p : CommentPlace) : Nat → CommentSearch → Take CommentSearch
  | 0, c => return c
  | fuel + 1, c => do
    if commentReach ≤ c.offset then return c
    need (c.offset + 1)
    let mark ← here
    let c := { c with column := c.column + 1 }
    let char ← if c.torn then pure '\ufffd' else ahead c.offset
    if isBlank char then return ← commentsWithin p fuel { c with offset := c.offset + 1 }
    let close := p.flow && (char = ']' || char = '\x7d')
    if close || isBreakOrEnd char then
      let c := c.endRun p close mark
      if !isBreak char then return c
      commentsWithin p fuel { c with
        offset := c.offset + 1
        line := c.line + 1
        column := 0
        first := false
        empty := true
        torn := 1 < char.utf8Size }
    else
      let dedented := c.column < p.indent + 1 && c.column ≠ c.start.column
      let c := if c.text && dedented then c.keepFoot mark else c
      if char ≠ '#' then return c
      let start := if c.text then c.start else ⟨c.line, c.column, mark.index + c.offset⟩
      comment c.offset
      commentsWithin p fuel { c with
        offset := 1
        line := (← here).line
        column := 0
        start
        text := true
        empty := false
        torn := 1 < (← peek).utf8Size }

def comments (p : CommentPlace) (scan owner : Nat) : Take (List Comment) := do
  let s ← get
  let c ← commentsWithin p ((commentReach + 1) * (s.left + 1)) {
    line := s.mark.line, column := s.mark.column, scan, owner, first := s.breaks ≤ 1 }
  return (c.keepHead (← here)).found

def inlineWithin : Nat → Nat → Take (Option Mark)
  | 0, _ => return none
  | fuel + 1, offset => do
    need (offset + 1)
    let c ← ahead offset
    if isBlank c then inlineWithin fuel (offset + 1)
    else if c = '#' then
      let here ← here
      comment offset
      return some { here with column := here.column + offset, index := here.index + offset }
    else return none

def inlineComment : Take (Option Mark) := do
  if (← get).breaks = 0 then inlineWithin commentReach 0 else return none

end Take

end LetPoly.Yaml
