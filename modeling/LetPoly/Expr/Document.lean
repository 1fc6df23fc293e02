import LetPoly.Expr.Decode
import LetPoly.Yaml.Document

namespace LetPoly

inductive DocumentError
  | malformed (text : String)
  | empty
  | decode (e : Yaml.DecodeError)
deriving DecidableEq, Repr

/-- What is wrong with a malformed text is left to `complain`. -/
def DocumentError.message (complain : String → String) (path : String) : DocumentError → String
  | .malformed text => s!"parsing {path}: " ++ complain text
  | .empty => s!"parsing {path}: empty document"
  | .decode e => s!"{path}: {e.message}"

def Expr.ofText (text : String) : Except DocumentError Expr :=
  match Yaml.Document.ofText text with
  | .malformed => .error (.malformed text)
  | .empty => .error .empty
  | .root n => (Expr.ofNode n).mapError .decode

end LetPoly
