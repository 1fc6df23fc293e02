namespace LetPoly

inductive Fault
  | missingType
  | missingExpr
  | noSuchPart
  | alreadyLinked (id : Int)
  | linkedToMissing (id : Int)
  | notUnbound (id : Int)
deriving DecidableEq, Repr

def Fault.message? : Fault → Option String
  | .missingType | .missingExpr | .noSuchPart => none
  | .alreadyLinked id => some s!"type-variable {id} is already linked"
  | .linkedToMissing id => some s!"type-variable {id} linked to nil"
  | .notUnbound id => some s!"cannot adjust the level of a non-unbound type-variable {id}"

end LetPoly
