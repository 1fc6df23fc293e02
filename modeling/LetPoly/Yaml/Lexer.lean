import LetPoly.Yaml.BlockScalar
import LetPoly.Yaml.Comment

namespace LetPoly.Yaml

structure KeyCandidate where
  live : Bool := false
  required : Bool := false
  number : Nat := 0
  mark : Mark := {}
deriving DecidableEq, Repr, Inhabited

namespace KeyCandidate

def longest : Nat := 1024

def isOver (k : KeyCandidate) (here : Mark) : Bool :=
  k.mark.line < here.line || k.mark.index + longest < here.index

end KeyCandidate

/-- A text on its way to tokens, of which the first `taken` are used up and the next one is `ready`
    or not. There is a candidate for a key on each level of brackets, and `levels` tells for the
    number of a token on which level it became one. `indent` is the column of the block around, and
    `outer` has those of the blocks around that. `keyAllowed` says that a key may start here. The
    `comments` are those that belong to no token yet. -/
structure Lexer where
  source : Source
  tokens : Array Token := #[]
  taken : Nat := 0
  ready : Bool := false
  candidates : Array KeyCandidate := #[]
  levels : List (Nat × Nat) := []
  indent : Int := -1
  outer : List Int := []
  keyAllowed : Bool := true
  comments : List Comment := []
deriving Repr

abbrev Lex := StateT Lexer Option

namespace Lexer

def deepest : Nat := 10000

def ofText (text : String) : Lexer := { source := .ofText text }

def flowLevel (l : Lexer) : Nat := l.candidates.size - 1

def inFlow (l : Lexer) : Bool := l.flowLevel ≠ 0

def recent? (l : Lexer) (back : Nat) : Option Token :=
  if back < l.tokens.size then l.tokens[l.tokens.size - 1 - back]? else none

def isRecent (l : Lexer) (back : Nat) (kind : TokenKind) : Bool :=
  (l.recent? back).any (·.kind = kind)

/-- Where the end of a block is put: at the comment that stands at its column, if the comments right
    before `here` have one. -/
def blockEndMark (indent : Int) (here : Mark) : (stop : Nat) → List Comment → Mark
  | _, [] => here
  | stop, c :: cs =>
    if c.stop < stop then here
    else blockEndMark indent (if c.start.column = indent + 1 then c.start else here) c.scan cs

end Lexer

namespace Lex

def take {α : Type} (t : Take α) : Lex α := fun l =>
  (t.run l.source).map fun (a, source) => (a, { l with source })

def here : Lex Mark := do return (← get).source.mark

def push (t : Token) : Lex Unit := modify fun l => { l with tokens := l.tokens.push t }

def insert (number : Nat) (t : Token) : Lex Unit :=
  modify fun l =>
    { l with
      tokens :=
        if number < l.taken then l.tokens.push t else l.tokens.insertIdxIfInBounds number t }

def allowKey (allowed : Bool) : Lex Unit := modify fun l => { l with keyAllowed := allowed }

def mark (kind : TokenKind) (length : Nat) : Lex Unit := do
  let start ← here
  take (length.repeat (fun t => t *> Take.skip) (pure ()))
  push ⟨kind, start, ← here⟩

def token (t : Take TokenKind) : Lex Unit := do
  let start ← here
  let kind ← take t
  push ⟨kind, start, ← here⟩

def setCandidate (level : Nat) (k : KeyCandidate) : Lex Unit :=
  modify fun l => { l with candidates := l.candidates.setIfInBounds level k }

def dropLevel (number : Nat) : Lex Unit :=
  modify fun l => { l with levels := l.levels.filter (·.1 ≠ number) }

def candidate? (level : Nat) : Lex (Option KeyCandidate) := do
  let l ← get
  match l.candidates[level]? with
  | none => return none
  | some k =>
    if !k.live then return none
    if !k.isOver l.source.mark then return some k
    guard !k.required
    setCandidate level { k with live := false }
    return none

def dropCandidate : Lex Unit := do
  let l ← get
  match l.candidates.back? with
  | none => return
  | some k =>
    if k.live then
      guard !k.required
      setCandidate l.flowLevel { k with live := false }
      dropLevel k.number

def keepCandidate : Lex Unit := do
  let l ← get
  if l.keyAllowed then
    dropCandidate
    let number := l.tokens.size
    let here := l.source.mark
    setCandidate l.flowLevel ⟨true, !l.inFlow && l.indent = here.column, number, here⟩
    modify fun l => { l with levels := (number, l.flowLevel) :: l.levels }

def openBlock (column : Nat) (number : Option Nat) (kind : TokenKind) (start : Mark) :
    Lex Unit := do
  let l ← get
  if !l.inFlow && l.indent < column then
    guard (l.outer.length < Lexer.deepest)
    modify fun l => { l with indent := column, outer := l.indent :: l.outer }
    match number with
    | none => push ⟨kind, start, start⟩
    | some number => insert number ⟨kind, start, start⟩

def closeBlocksWithin (column : Int) : List Int → Mark → Lex Unit
  | [], _ => return
  | outer :: rest, mark => do
    let l ← get
    if column < l.indent then
      let mark := Lexer.blockEndMark l.indent mark mark.index l.comments.reverse
      push ⟨.blockEnd, mark, mark⟩
      modify fun l => { l with indent := outer, outer := rest }
      closeBlocksWithin column rest mark

def closeBlocks (column : Int) (scan : Mark) : Lex Unit := do
  let l ← get
  if !l.inFlow then closeBlocksWithin column l.outer { scan with index := scan.index - 1 }

def blanksWithin : Nat → Lex Unit
  | 0 => return
  | fuel + 1 => do
    let l ← get
    let c := l.source.ahead 0
    if c = ' ' || (c = '\t' && (l.inFlow || !l.keyAllowed)) then
      take Take.skip
      take (Take.need 1)
      blanksWithin fuel

def moveComment : Lex Unit :=
  modify fun l =>
    match l.comments.reverse with
    | [] => l
    | c :: cs =>
      if c.inline && l.isRecent 1 .blockSequenceStart && l.isRecent 0 .blockEntry &&
          !isBreak (l.source.ahead 0) then
        let here := l.source.mark
        let owner := if c.start.line + 1 = here.line then here.index else c.owner
        { l with comments := ({ c with head := true, inline := false, owner } :: cs).reverse }
      else l

def comments (scan : Nat) : Lex Unit := do
  let l ← get
  let last := if l.isRecent 0 .flowEntry && 1 < l.tokens.size then l.recent? 1 else l.recent? 0
  let s := l.source
  let behind := if s.breaks = 0 && 1 < s.mark.column then 1 else 0
  let place : CommentPlace := {
    flow := l.inFlow
    indent := l.indent.toNat
    footLine := s.mark.line - s.breaks + 1 + behind
    behindColon := last.any (·.kind = .value) }
  let found ← take (Take.comments place scan ((last.map (·.start.index)).getD 0))
  modify fun l => { l with comments := l.comments ++ found.reverse }

def inlineComment (owner : Nat) : Lex Unit := do
  match ← take Take.inlineComment with
  | none => return
  | some start =>
    let c : Comment := { owner, start, inline := true }
    modify fun l => { l with comments := l.comments ++ [c] }

def toTokenWithin (scan : Nat) : Nat → Lex Unit
  | 0 => return
  | fuel + 1 => do
    take (Take.need 1)
    let s := (← get).source
    if s.mark.column = 0 && s.charAt s.front = '\ufeff' then take Take.skip
    take (Take.need 1)
    blanksWithin s.left
    moveComment
    if (← take Take.peek) = '#' then comments scan
    if isBreak (← take Take.peek) then
      take (Take.need 2)
      take Take.skipLine
      if !(← get).inFlow then allowKey true
      toTokenWithin scan fuel

def endBlocks : Lex Unit := do
  closeBlocks (-1) (← here)
  dropCandidate
  allowKey false

def streamStart : Lex Unit := do
  modify fun l => { l with candidates := #[{}] }
  mark .streamStart 0

def streamEnd : Lex Unit := do
  if (← here).column ≠ 0 then
    modify fun l => { l with source := { l.source with mark := l.source.mark.nextLine 0 } }
  endBlocks
  mark .streamEnd 0

def directive : Lex Unit := do
  endBlocks
  token do return .directive (← Take.directive)

def documentMarker (kind : TokenKind) : Lex Unit := do
  endBlocks
  mark kind 3

def flowStart (kind : TokenKind) : Lex Unit := do
  keepCandidate
  let l ← get
  guard (l.flowLevel < Lexer.deepest)
  let inner : KeyCandidate := { number := l.tokens.size, mark := l.source.mark }
  modify fun l => { l with candidates := l.candidates.push inner, keyAllowed := true }
  mark kind 1

def flowEnd (kind : TokenKind) : Lex Unit := do
  dropCandidate
  let l ← get
  if l.inFlow then
    dropLevel ((l.candidates.back?.map (·.number)).getD 0)
    modify fun l => { l with candidates := l.candidates.pop }
  allowKey false
  mark kind 1

def flowEntry : Lex Unit := do
  dropCandidate
  allowKey true
  mark .flowEntry 1

def blockEntry : Lex Unit := do
  let l ← get
  if !l.inFlow then
    guard l.keyAllowed
    openBlock l.source.mark.column none .blockSequenceStart l.source.mark
  dropCandidate
  allowKey true
  mark .blockEntry 1

def key : Lex Unit := do
  let l ← get
  if !l.inFlow then
    guard l.keyAllowed
    openBlock l.source.mark.column none .blockMappingStart l.source.mark
  dropCandidate
  allowKey !l.inFlow
  mark .key 1

def value : Lex Unit := do
  let l ← get
  match ← candidate? l.flowLevel with
  | some k =>
    insert k.number ⟨.key, k.mark, k.mark⟩
    openBlock k.mark.column (some k.number) .blockMappingStart k.mark
    setCandidate l.flowLevel { k with live := false }
    dropLevel k.number
    allowKey false
  | none =>
    if !l.inFlow then
      guard l.keyAllowed
      openBlock l.source.mark.column none .blockMappingStart l.source.mark
    allowKey !l.inFlow
  mark .value 1

def endsName (c : Char) : Bool :=
  isSpaceOrEnd c || c = '?' || c = ':' || c = ',' || c = ']' || c = '\x7d' || c = '%' || c = '@' ||
    c.toNat = 0x60

def anchorName : Take String := do
  Take.skip
  Take.need 1
  let name ← Take.span isNameChar
  guard (!name.isEmpty && endsName (← Take.peek))
  return String.ofList name

def keyToken (t : Take TokenKind) : Lex Unit := do
  keepCandidate
  allowKey false
  token t

def block (folded : Bool) : Lex Unit := do
  dropCandidate
  allowKey true
  let start ← here
  take Take.skip
  let header ← take Take.blockHeader
  take (Take.need 1)
  take Take.blanks
  if (← take Take.peek) = '#' then inlineComment start.index
  take Take.endOfLine
  let text ← take (Take.blockText folded (← get).indent header)
  push ⟨.scalar text false, start, ← here⟩

def plain : Lex Unit := do
  keepCandidate
  allowKey false
  let l ← get
  let (text, broken) ← take (Take.plain l.inFlow (l.indent + 1))
  if broken then allowKey true
  push ⟨.scalar text true, l.source.mark, ← here⟩

def isIndicator (c : Char) : Bool :=
  "-?:,[]\x7b\x7d#&*!|>'\"%@`".toList.contains c

def tokenOf (c next : Char) (flow : Bool) : Lex Unit :=
  let spaced := isSpaceOrEnd next
  match c with
  | '[' => flowStart .flowSequenceStart
  | '\x7b' => flowStart .flowMappingStart
  | ']' => flowEnd .flowSequenceEnd
  | '\x7d' => flowEnd .flowMappingEnd
  | ',' => flowEntry
  | '-' => if spaced then blockEntry else plain
  | '?' => if flow || spaced then key else plain
  | ':' => if flow || spaced then value else plain
  | '*' => keyToken do return .alias (← anchorName)
  | '&' => keyToken do return .anchor (← anchorName)
  | '!' => keyToken do
    let (handle, text) ← Take.tag
    return .tag handle text
  | '|' => if flow then failure else block false
  | '>' => if flow then failure else block true
  | '\'' | '"' => keyToken do return .scalar (← Take.quoted) false
  | _ => if isSpaceOrEnd c || isIndicator c then failure else plain

def fetch : Lex Unit := do
  take (Take.need 1)
  if (← get).tokens.isEmpty then return ← streamStart
  let scan ← here
  toTokenWithin scan.index ((← get).source.left + 1)
  closeBlocks (← here).column scan
  take (Take.need 4)
  let l ← get
  let s := l.source
  let c := s.ahead 0
  if c = endChar then streamEnd
  else if s.mark.column = 0 && c = '%' then directive
  else if s.atMarker '-' then documentMarker .documentStart
  else if s.atMarker '.' then documentMarker .documentEnd
  else
    let owner :=
      if c = (if l.inFlow then ',' else ':') then l.recent? 0 |>.map (·.start.index) else none
    tokenOf c (s.ahead 1) l.inFlow
    if !(← get).isRecent 0 .blockEntry then inlineComment (owner.getD s.mark.index)

def lookahead : Nat := 3

/-- Reads tokens until the next one is settled: enough of them follow, and it cannot turn out to
    start a key any more. -/
def fetchWithin : Nat → Lex Unit
  | 0 => failure
  | fuel + 1 => do
    let l ← get
    if l.taken + lookahead ≤ l.tokens.size then
      match l.levels.lookup l.taken with
      | none => return
      | some level => if (← candidate? level).isNone then return
    fetch
    fetchWithin fuel

def settleComments (t : Token) : List Comment → List Comment
  | [] => []
  | c :: cs =>
    if t.start.index < c.owner || (c.head && t.kind = .blockEnd) then c :: cs
    else settleComments t cs

def peek : Lex Token := do
  let l ← get
  if !l.ready then
    fetchWithin (l.source.left + 8)
    modify fun l => { l with ready := true }
  let l ← get
  match l.tokens[l.taken]? with
  | none => failure
  | some t =>
    modify fun l => { l with comments := settleComments t l.comments }
    return t

def skip : Lex Unit :=
  modify fun l =>
    { l with
      ready := false
      taken := l.taken + 1
      levels := l.levels.filter (l.taken < ·.1) }

end Lex

end LetPoly.Yaml
