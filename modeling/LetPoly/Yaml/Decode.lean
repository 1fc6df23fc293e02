import LetPoly.Text.Quoted
import LetPoly.Yaml.Node
import LetPoly.Yaml.Scalar

namespace LetPoly.Yaml

inductive NumberKind
  | int
  | float
deriving DecidableEq, Repr

def NumberKind.toText : NumberKind → String
  | .int => "int64"
  | .float => "float64"

inductive DecodeCause
  | notSingleKey
  | notMapping
  | notSequence
  | notScalar
  | notNumber (tag text : String) (kind : NumberKind)
  | badScalar (e : ScalarError)
  | emptySequence
  | missingField (name : String)
  | missingBinder
  | unknownExpr (form : String)
  | unknownPattern (form : String)
deriving DecidableEq, Repr

structure DecodeError where
  pos : Pos
  cause : DecodeCause
deriving DecidableEq, Repr

def firstBytes (n : Nat) : List Char → List Char
  | [] => []
  | c :: cs =>
    if c.utf8Size ≤ n then c :: firstBytes (n - c.utf8Size) cs else List.replicate n '\ufffd'

/-- The text of a scalar for a message, behind its tag. A long one is cut, and one with the tag of a
    collection stands as it is. -/
def excerpt (tag s : String) : String :=
  if tag = "!!seq" || tag = "!!map" then s
  else if 10 < s.utf8ByteSize then " `" ++ String.ofList (firstBytes 7 s.toList) ++ "...`"
  else " `" ++ s ++ "`"

namespace DecodeError

def reason (e : DecodeError) : String :=
  match e.cause with
  | .notSingleKey => "expected a mapping with a single key"
  | .notMapping => "expected a mapping"
  | .notSequence => "expected a sequence"
  | .notScalar => "expected a scalar"
  | .notNumber tag text kind =>
    s!"yaml: unmarshal errors:\n  line {e.pos.line}: cannot unmarshal {tag}" ++
      excerpt tag text ++ " into " ++ kind.toText
  | .badScalar e => e.message
  | .emptySequence => "empty sequence"
  | .missingField name => "missing " ++ Text.quote name
  | .missingBinder => "missing \"name\" or \"pattern\""
  | .unknownExpr form => "unknown expression form " ++ Text.quote form
  | .unknownPattern form => "unknown pattern form " ++ Text.quote form

def message (e : DecodeError) : String := e.pos.toText ++ ": " ++ e.reason

end DecodeError

abbrev Decoded := Except DecodeError

namespace Node

def fail {α : Type} (n : Node) (cause : DecodeCause) : Decoded α := .error ⟨n.pos, cause⟩

def single (n : Node) : Decoded (String × Node) :=
  match n with
  | .mapping _ [(key, value)] => .ok (key.text, value)
  | _ => n.fail .notSingleKey

def pairs (n : Node) : Decoded (List (Node × Node)) :=
  match n with
  | .mapping _ pairs => .ok pairs
  | _ => n.fail .notMapping

def items (n : Node) : Decoded (List Node) :=
  match n with
  | .sequence _ items => .ok items
  | _ => n.fail .notSequence

def lookup? (name : String) (pairs : List (Node × Node)) : Option Node :=
  (pairs.reverse.find? fun p => p.1.text = name).map Prod.snd

def field (n : Node) (pairs : List (Node × Node)) (name : String) : Decoded Node :=
  match lookup? name pairs with
  | some v => .ok v
  | none => n.fail (.missingField name)

def shortTag (tag : String) : String :=
  let core := "tag:yaml.org,2002:"
  if tag.startsWith core then "!!" ++ tag.drop core.length else tag

def resolve (text : String) (plain : Bool) (tag : String) : Except ScalarError (String × Scalar) :=
  if tag ≠ "" then do
    let tag := shortTag tag
    return (tag, ← Scalar.ofTagged text tag)
  else if !plain then .ok ("!!str", .text text)
  else if text = "<<" then .ok ("!!merge", .text text)
  else
    let v := Scalar.ofText true text
    .ok (v.tag, v)

def onScalar {α : Type} (n : Node) (give : String → String → Scalar → Except DecodeCause α) :
    Decoded α :=
  match n with
  | .scalar pos text plain tag =>
    match resolve text plain tag with
    | .error e => .error ⟨pos, .badScalar e⟩
    | .ok (tag, v) => (give tag text v).mapError (⟨pos, ·⟩)
  | _ => n.fail .notScalar

def string (n : Node) : Decoded String :=
  n.onScalar fun _ text v =>
    match v with
    | .null => .ok ""
    | .text s => .ok s
    | _ => .ok text

def int (n : Node) : Decoded Int :=
  n.onScalar fun tag text v =>
    match v.toInt? with
    | some i => .ok i
    | none => .error (.notNumber tag text .int)

def float (n : Node) : Decoded Binary64 :=
  n.onScalar fun tag text v =>
    match v.toFloat? with
    | some x => .ok x
    | none => .error (.notNumber tag text .float)

end Node

end LetPoly.Yaml
