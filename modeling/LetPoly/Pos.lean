namespace LetPoly

structure Pos where
  line : Int := 0
  column : Int := 0
deriving DecidableEq, Repr, Inhabited

def Pos.toText (p : Pos) : String := s!"{p.line}:{p.column}"

end LetPoly
