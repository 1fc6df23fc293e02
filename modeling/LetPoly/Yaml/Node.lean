import LetPoly.Pos

namespace LetPoly.Yaml

/-- A node of a document. A mapping keeps its pairs as they are written. An alias names the anchor
    that it refers to and is not replaced by what stands there. A scalar that has no tag, or only an
    exclamation mark, has the empty one. -/
inductive Node
  | scalar (pos : Pos) (text : String) (plain : Bool) (tag : String)
  | mapping (pos : Pos) (pairs : List (Node × Node))
  | sequence (pos : Pos) (items : List Node)
  | alias (pos : Pos) (name : String)
deriving Repr, Inhabited

namespace Node

def pos : Node → Pos
  | .scalar pos _ _ _ | .mapping pos _ | .sequence pos _ | .alias pos _ => pos

def text : Node → String
  | .scalar _ text _ _ => text
  | .alias _ name => name
  | _ => ""

def empty (pos : Pos) : Node := .scalar pos "" true ""

def depth : Node → Nat
  | .scalar _ _ _ _ | .alias _ _ => 1
  | .mapping _ pairs => pairDepths pairs + 1
  | .sequence _ items => depths items + 1
where
  depths : List Node → Nat
    | [] => 0
    | n :: ns => max n.depth (depths ns)
  pairDepths : List (Node × Node) → Nat
    | [] => 0
    | (k, v) :: ps => max (max k.depth v.depth) (pairDepths ps)

end Node

end LetPoly.Yaml
