import LetPoly.Pos

namespace LetPoly

inductive Pattern
  | missing
  | var (pos : Pos) (name : String)
  | discard (pos : Pos)
  | int (pos : Pos) (value : Int)
  | tuple (pos : Pos) (elems : List Pattern)
  | constructor (pos : Pos) (name : String) (args : List Pattern)
deriving Repr, Inhabited

namespace Pattern

def pos : Pattern → Pos
  | .missing => {}
  | .var pos _ | .discard pos | .int pos _ | .tuple pos _ | .constructor pos _ _ => pos

def form? : Pattern → Option String
  | .missing => none
  | .var _ _ => some "Var"
  | .discard _ => some "Discard"
  | .int _ _ => some "Int"
  | .tuple _ _ => some "Tuple"
  | .constructor _ _ _ => some "Constructor"

mutual

def toText : Pattern → String
  | .missing => ""
  | .var _ name => name
  | .discard _ => "_"
  | .int _ value => toString value
  | .tuple _ elems => "\x7b" ++ ", ".intercalate (textOfList elems) ++ "\x7d"
  | .constructor _ name args =>
    if args.isEmpty then name else name ++ "(" ++ ", ".intercalate (textOfList args) ++ ")"

def textOfList : List Pattern → List String
  | [] => []
  | p :: ps => p.toText :: textOfList ps

end

end Pattern

end LetPoly
