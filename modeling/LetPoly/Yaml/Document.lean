import LetPoly.Yaml.Lexer
import LetPoly.Yaml.Node

namespace LetPoly.Yaml

structure Reader where
  lexer : Lexer
  anchors : List String := []
  handles : List (String × String) := []
deriving Repr

abbrev Read := StateT Reader Option

structure Properties where
  start : Mark
  anchor : Option String := none
  tag : String := ""
deriving DecidableEq, Repr

namespace Properties

def isEmpty (p : Properties) : Bool := p.anchor.isNone && p.tag.isEmpty

def pos (p : Properties) : Pos := p.start.pos

def scalar (p : Properties) (text : String) (plain : Bool) : Node :=
  .scalar p.pos text plain (if p.tag = "!" then "" else p.tag)

end Properties

namespace Read

def lex {α : Type} (t : Lex α) : Read α := fun r =>
  (t.run r.lexer).map fun (a, lexer) => (a, { r with lexer })

def peek : Read Token := lex Lex.peek

def skip : Read Unit := lex Lex.skip

def setAnchor (name : Option String) : Read Unit :=
  modify fun r => { r with anchors := name.toList ++ r.anchors }

def knows (name : String) : Read Unit := do
  guard ((← get).anchors.contains name)

def isOneOf (kinds : List TokenKind) (t : Token) : Bool := kinds.contains t.kind

def tagOf (handle text : String) : Read String := do
  if handle = "" then return text
  match (← get).handles.lookup handle with
  | none => failure
  | some start => return start ++ text

def properties : Read Properties := do
  let t ← peek
  match t.kind with
  | .anchor name =>
    skip
    match (← peek).kind with
    | .tag handle text =>
      skip
      let _ ← peek
      return ⟨t.start, some name, ← tagOf handle text⟩
    | _ => return ⟨t.start, some name, ""⟩
  | .tag handle text =>
    skip
    match (← peek).kind with
    | .anchor name =>
      skip
      let _ ← peek
      return ⟨t.start, some name, ← tagOf handle text⟩
    | _ => return ⟨t.start, none, ← tagOf handle text⟩
  | _ => return ⟨t.start, none, ""⟩

mutual

/-- A node. `block` allows block collections, and `entries` a sequence whose dashes stand at the
    column of the key before them. -/
def node : Nat → (block entries : Bool) → Read Node
  | 0, _, _ => failure
  | fuel + 1, block, entries => do
    let t ← peek
    match t.kind with
    | .alias name =>
      skip
      knows name
      return .alias t.start.pos name
    | _ => content fuel block entries (← properties)

def content : Nat → (block entries : Bool) → Properties → Read Node
  | 0, _, _, _ => failure
  | fuel + 1, block, entries, p => do
    setAnchor p.anchor
    match (← peek).kind, block, entries with
    | .blockEntry, _, true => return .sequence p.pos (← looseItems fuel [])
    | .scalar text plain, _, _ =>
      skip
      return p.scalar text plain
    | .flowSequenceStart, _, _ =>
      skip
      return .sequence p.pos (← flowItems fuel true [])
    | .flowMappingStart, _, _ =>
      skip
      return .mapping p.pos (← flowPairs fuel true [])
    | .blockSequenceStart, true, _ =>
      skip
      return .sequence p.pos (← blockItems fuel [])
    | .blockMappingStart, true, _ =>
      skip
      return .mapping p.pos (← blockPairs fuel [])
    | _, _, _ => if p.isEmpty then failure else return p.scalar "" true

def nodeBefore : Nat → List TokenKind → (block entries : Bool) → Mark → Read Node
  | 0, _, _, _, _ => failure
  | fuel + 1, ends, block, entries, mark => do
    if isOneOf ends (← peek) then return .empty mark.pos else node fuel block entries

def blockItems : Nat → (seen : List Node) → Read (List Node)
  | 0, _ => failure
  | fuel + 1, seen => do
    let t ← peek
    match t.kind with
    | .blockEntry =>
      skip
      let item ← nodeBefore fuel [.blockEntry, .blockEnd] true false t.stop
      blockItems fuel (item :: seen)
    | .blockEnd =>
      skip
      return seen.reverse
    | _ => failure

def looseItems : Nat → (seen : List Node) → Read (List Node)
  | 0, _ => failure
  | fuel + 1, seen => do
    let t ← peek
    match t.kind with
    | .blockEntry =>
      skip
      let item ← nodeBefore fuel [.blockEntry, .key, .value, .blockEnd] true false t.stop
      looseItems fuel (item :: seen)
    | _ => return seen.reverse

def blockPairs : Nat → (seen : List (Node × Node)) → Read (List (Node × Node))
  | 0, _ => failure
  | fuel + 1, seen => do
    let t ← peek
    match t.kind with
    | .key =>
      skip
      let key ← nodeBefore fuel [.key, .value, .blockEnd] true true t.stop
      let value ← blockValue fuel
      blockPairs fuel ((key, value) :: seen)
    | .blockEnd =>
      skip
      return seen.reverse
    | _ => failure

def blockValue : Nat → Read Node
  | 0 => failure
  | fuel + 1 => do
    let t ← peek
    match t.kind with
    | .value =>
      skip
      nodeBefore fuel [.key, .value, .blockEnd] true true t.stop
    | _ => return .empty t.start.pos

def flowItems : Nat → (first : Bool) → (seen : List Node) → Read (List Node)
  | 0, _, _ => failure
  | fuel + 1, first, seen => do
    if !first && (← peek).kind ≠ .flowSequenceEnd then
      guard ((← peek).kind = .flowEntry)
      skip
    let t ← peek
    match t.kind with
    | .flowSequenceEnd =>
      skip
      return seen.reverse
    | .key =>
      skip
      let pair ← flowPair fuel
      flowItems fuel false (.mapping t.start.pos [pair] :: seen)
    | _ =>
      let item ← node fuel false false
      flowItems fuel false (item :: seen)

/-- A pair in a flow sequence. A token that stands in place of the key is dropped. -/
def flowPair : Nat → Read (Node × Node)
  | 0 => failure
  | fuel + 1 => do
    let t ← peek
    if isOneOf [.value, .flowEntry, .flowSequenceEnd] t then
      skip
      let value ← flowPairValue fuel
      return (.empty t.stop.pos, value)
    else
      let key ← node fuel false false
      let value ← flowPairValue fuel
      return (key, value)

def flowPairValue : Nat → Read Node
  | 0 => failure
  | fuel + 1 => do
    let t ← peek
    if t.kind = .value then
      skip
      nodeBefore fuel [.flowEntry, .flowSequenceEnd] false false t.start
    else return .empty t.start.pos

def flowPairs : Nat → (first : Bool) → (seen : List (Node × Node)) → Read (List (Node × Node))
  | 0, _, _ => failure
  | fuel + 1, first, seen => do
    if !first && (← peek).kind ≠ .flowMappingEnd then
      guard ((← peek).kind = .flowEntry)
      skip
    let t ← peek
    match t.kind with
    | .flowMappingEnd =>
      skip
      return seen.reverse
    | .key =>
      skip
      let mark := (← peek).start
      let key ← nodeBefore fuel [.value, .flowEntry, .flowMappingEnd] false false mark
      let value ← flowValue fuel
      flowPairs fuel false ((key, value) :: seen)
    | _ =>
      let key ← node fuel false false
      let value := .empty (← peek).start.pos
      flowPairs fuel false ((key, value) :: seen)

def flowValue : Nat → Read Node
  | 0 => failure
  | fuel + 1 => do
    if (← peek).kind = .value then
      skip
      let mark := (← peek).start
      nodeBefore fuel [.flowEntry, .flowMappingEnd] false false mark
    else return .empty (← peek).start.pos

end

def version : Directive := .version 1 1

def directivesWithin : Nat → (seen : List Directive) → Read (List Directive)
  | 0, _ => failure
  | fuel + 1, seen => do
    match (← peek).kind with
    | .directive d =>
      match d with
      | .version _ _ => guard (d = version && !seen.contains version)
      | .handle name _ =>
        guard (seen.all fun
          | .handle other _ => other ≠ name
          | .version _ _ => true)
      skip
      directivesWithin fuel (d :: seen)
    | _ => return seen

def defaultHandles : List (String × String) := [("!", "!"), ("!!", "tag:yaml.org,2002:")]

def directives (fuel : Nat) : Read (List Directive) := do
  let seen ← directivesWithin fuel []
  let handles := seen.filterMap fun
    | .handle name start => some (name, start)
    | .version _ _ => none
  modify fun r => { r with handles := handles ++ defaultHandles }
  return seen

def root (fuel : Nat) : Read (Option Node) := do
  skip
  if (← peek).kind = .streamEnd then return none
  let seen ← directives fuel
  if (← peek).kind = .documentStart then
    skip
    match ← peek with
    | ⟨.directive _, start, _⟩ | ⟨.documentStart, start, _⟩ | ⟨.documentEnd, start, _⟩
    | ⟨.streamEnd, start, _⟩ => return some (.empty start.pos)
    | _ => return some (← node fuel true false)
  else
    guard seen.isEmpty
    return some (← node fuel true false)

end Read

inductive Document
  | malformed
  | empty
  | root (node : Node)
deriving Repr, Inhabited

namespace Document

/-- The first document of a text. What comes behind it has to make sense as far as it takes to know
    the next token. -/
def ofText (text : String) : Document :=
  let l := Lexer.ofText text
  let read : Read (Option Node) := do
    let _ ← Read.peek
    let node ← Read.root (8 * l.source.chars.size + 64)
    let _ ← Read.peek
    return node
  match read.run { lexer := l } with
  | none => .malformed
  | some (none, _) => .empty
  | some (some node, _) => .root node

end Document

end LetPoly.Yaml
