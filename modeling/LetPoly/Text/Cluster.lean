import LetPoly.Text.BreakClass

namespace LetPoly.Text

/-- What is known of a cluster that is being read: its last class, the last one that is neither a
    mark nor a joiner, and whether its last two characters are a flag. -/
structure ClusterEnd where
  last : BreakClass
  core : BreakClass
  flag : Bool
deriving DecidableEq, Repr

namespace ClusterEnd

def start (c : BreakClass) : ClusterEnd := ⟨c, c, false⟩

def isBreak (c : BreakClass) : Bool :=
  c = .control || c = .carriageReturn || c = .lineFeed

def goesOn (last next : BreakClass) : Bool :=
  match last, next with
  | .lead, .lead | .lead, .vowel | .lead, .openSyllable | .lead, .closedSyllable => true
  | .openSyllable, .vowel | .openSyllable, .trail | .vowel, .vowel | .vowel, .trail => true
  | .closedSyllable, .trail | .trail, .trail => true
  | _, _ => false

def joins (e : ClusterEnd) (next : BreakClass) : Bool :=
  if e.last = .carriageReturn && next = .lineFeed then true
  else if isBreak e.last || isBreak next then false
  else if next = .extend || next = .joiner || next = .spacing || e.last = .prepend then true
  else if e.last = .joiner && next = .pictograph then e.core = .pictograph
  else if e.last = .regional && next = .regional then !e.flag
  else goesOn e.last next

def push (e : ClusterEnd) (next : BreakClass) : ClusterEnd :=
  { last := next
    core := if next = .extend || next = .joiner then e.core else next
    flag := e.last = .regional && next = .regional }

end ClusterEnd

def clustersFrom (e : ClusterEnd) (current : List Char) : List Char → List (List Char)
  | [] => [current.reverse]
  | c :: cs =>
    let next := BreakClass.ofChar c
    if e.joins next then clustersFrom (e.push next) (c :: current) cs
    else current.reverse :: clustersFrom (.start next) [c] cs

def clusters : List Char → List (List Char)
  | [] => []
  | c :: cs => clustersFrom (.start (BreakClass.ofChar c)) [c] cs

end LetPoly.Text
