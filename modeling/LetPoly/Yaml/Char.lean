import LetPoly.Pos

namespace LetPoly.Yaml

structure Mark where
  line : Nat := 0
  column : Nat := 0
  index : Nat := 0
deriving DecidableEq, Repr, Inhabited

namespace Mark

def pos (m : Mark) : Pos := ⟨m.line + 1, m.column + 1⟩

def next (m : Mark) : Mark := { m with column := m.column + 1, index := m.index + 1 }

def nextLine (m : Mark) (length : Nat) : Mark := ⟨m.line + 1, 0, m.index + length⟩

end Mark

def isBlank (c : Char) : Bool := c = ' ' || c = '\t'

def isSeparator (c : Char) : Bool := c = '\u2028' || c = '\u2029'

def isBreak (c : Char) : Bool := c = '\n' || c = '\r' || c = '\u0085' || isSeparator c

def endChar : Char := '\x00'

def isBreakOrEnd (c : Char) : Bool := isBreak c || c = endChar

def isSpaceOrEnd (c : Char) : Bool := isBlank c || isBreakOrEnd c

def isAllowed (c : Char) : Bool :=
  let n := c.toNat
  n = 0x09 || n = 0x0a || n = 0x0d || (0x20 ≤ n && n ≤ 0x7e) || n = 0x85 ||
    (0xa0 ≤ n && n ≤ 0xfffd) || 0x10000 ≤ n

def isNameChar (c : Char) : Bool := c.isAlphanum || c = '_' || c = '-'

def hexValue? (c : Char) : Option Nat :=
  if '0' ≤ c && c ≤ '9' then some (c.toNat - '0'.toNat)
  else if 'a' ≤ c && c ≤ 'f' then some (c.toNat - 'a'.toNat + 10)
  else if 'A' ≤ c && c ≤ 'F' then some (c.toNat - 'A'.toNat + 10)
  else none

end LetPoly.Yaml
