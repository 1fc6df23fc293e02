import LetPoly.Expr.Text
import LetPoly.Text.EditDistance
import LetPoly.Ty.Row
import LetPoly.Ty.Text
import LetPoly.Unification

namespace LetPoly

abbrev Bindings := Index Ty

inductive InferError
  | unknownVariable (pos : Pos) (name : String) (visible : Bindings)
  | notImplemented (pos : Pos) (form : String)
  | missingSubexpression
  | missingExpression
  | missingEnvironment

def maxSuggestionDistance : Nat := 2

def nearer (d : String → Nat) (best : String × Nat) (candidate : String) : String × Nat :=
  if d candidate < best.2 then (candidate, d candidate) else best

/-- The name nearest to an unknown one, the first of them in order, or the empty text if none is
    near enough. -/
def suggestion (name : String) (visible : List String) : String :=
  (visible.foldl (nearer (Text.editDistance name)) ("", maxSuggestionDistance + 1)).1

/-- The suggestion that is made while the bindings are visited. -/
def Bindings.suggestion (visible : Bindings) (name : String) : Except Fault String := do
  let nearest (candidate : String) (_ : Ty) (best : String × Nat) :=
    (nearer (Text.editDistance name) best candidate, true)
  return (← visible.visit nearest ("", maxSuggestionDistance + 1)).1

namespace InferError

def unknownText (pos : Pos) (name hint : String) : String :=
  let ending := if hint = "" then "" else " (did you mean " ++ hint ++ "?)"
  pos.toText ++ ": unknown variable " ++ name ++ ending

def message : InferError → String
  | .unknownVariable pos name visible => unknownText pos name (suggestion name visible.names)
  | .notImplemented pos form => pos.toText ++ ": type inference is not implemented for " ++ form
  | .missingSubexpression => "hindley: missing sub-expression"
  | .missingExpression => "hindley: cannot infer a nil expression"
  | .missingEnvironment => "hindley: cannot infer without a type-environment"

/-- The message, which cannot be told if a visible name was given no type. -/
def report : InferError → Except Fault String
  | .unknownVariable pos name visible => do
    return unknownText pos name (← visible.suggestion name)
  | e => .ok e.message

end InferError

def UnifyError.message? (s : Store) : UnifyError → Option String
  | .mismatch expected found =>
    let (expected, names) := s.showType Store.defaultWidth expected {}
    let (found, _) := s.showType Store.defaultWidth found names
    some (Pos.toText {} ++ ": type mismatch: expected " ++ expected ++ ", found " ++ found)
  | .recursive id type =>
    let (name, names) := VarNames.name {} id
    let (type, _) := s.showType Store.defaultWidth type names
    some (Pos.toText {} ++ ": recursive type: " ++ name ++ " occurs within " ++ type)
  | .fault f => f.message?
  | .cyclic => none

end LetPoly
