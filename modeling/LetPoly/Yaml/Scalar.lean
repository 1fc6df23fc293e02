import LetPoly.Binary64.Shortest
import LetPoly.Text.Base64
import LetPoly.Text.Numeral
import LetPoly.Yaml.Timestamp

namespace LetPoly.Yaml

inductive Scalar
  | null
  | bool (b : Bool)
  | int (n : Int)
  | float (x : Binary64)
  | timestamp
  | text (s : String)
deriving DecidableEq, Repr

inductive ScalarError
  | otherTag (found text tag : String)
  | notBase64
deriving DecidableEq, Repr

def ScalarError.message : ScalarError → String
  | .otherTag found text tag => s!"yaml: cannot decode {found} " ++ "`" ++ text ++ "` as a " ++ tag
  | .notBase64 => "yaml: !!binary value contains invalid base64 data"

namespace Scalar

def tag : Scalar → String
  | .null => "!!null"
  | .bool _ => "!!bool"
  | .int _ => "!!int"
  | .float _ => "!!float"
  | .timestamp => "!!timestamp"
  | .text _ => "!!str"

def word? (s : String) : Option Scalar :=
  if ["", "~", "null", "Null", "NULL"].contains s then some .null
  else if ["true", "True", "TRUE"].contains s then some (.bool true)
  else if ["false", "False", "FALSE"].contains s then some (.bool false)
  else if [".nan", ".NaN", ".NAN"].contains s then some (.float .nan)
  else if [".inf", ".Inf", ".INF", "+.inf", "+.Inf", "+.INF"].contains s then
    some (.float (.infinite false))
  else if ["-.inf", "-.Inf", "-.INF"].contains s then some (.float (.infinite true))
  else none

def int? (r : Except Text.NumeralError Int) : Option Scalar := r.toOption.map .int

def nat? (r : Except Text.NumeralError Nat) : Option Scalar := r.toOption.map (.int ·)

def float? (cs : List Char) : Option Scalar := do
  let d ← Text.Decimal.ofChars? cs
  return .float (← Binary64.ofDecimal? d.negative d.digits d.exponent)

def signedDigits? (mark : Char) (base : Nat) (cs : List Char) : Option Scalar :=
  match cs with
  | '0' :: m :: digits => if m = mark then int? (Text.Numeral.readIntIn base digits) else none
  | '-' :: '0' :: m :: digits =>
    if m = mark then int? (Text.Numeral.readIntIn base ('-' :: digits)) else none
  | _ => none

def number? (cs : List Char) : Option Scalar :=
  let cs := cs.filter (· ≠ '_')
  int? (Text.Numeral.readInt cs)
    <|> nat? (Text.Numeral.readNat cs)
    <|> float? cs
    <|> signedDigits? 'b' 2 cs
    <|> signedDigits? 'o' 8 cs

def fraction? (cs : List Char) : Option Scalar :=
  if Text.Numeral.underscoresOk cs then float? (cs.filter (· ≠ '_')) else none

/-- What a text stands for by itself. Only where `dates` are looked for, it may be one. -/
def ofText (dates : Bool) (s : String) : Scalar :=
  match word? s with
  | some v => v
  | none =>
    let cs := s.toList
    match cs with
    | [] => .null
    | c :: _ =>
      if c = '.' then (fraction? cs).getD (.text s)
      else if c.isDigit || c = '+' || c = '-' then
        if dates && isTimestamp cs then .timestamp else (number? cs).getD (.text s)
      else .text s

def withTag (text tag : String) (v : Scalar) : Except ScalarError Scalar :=
  match v with
  | .int n =>
    if tag = "!!int" then .ok v
    else if tag = "!!float" && IsWord n then .ok (.float (.ofInt n))
    else .error (.otherTag v.tag text tag)
  | _ => if tag = v.tag then .ok v else .error (.otherTag v.tag text tag)

def ofTagged (text tag : String) : Except ScalarError Scalar :=
  if tag = "!!binary" then
    match Text.Base64.decode? text with
    | some s => .ok (.text s)
    | none => .error .notBase64
  else if ["!!null", "!!bool", "!!int", "!!float", "!!timestamp"].contains tag then
    (ofText (tag = "!!timestamp") text).withTag text tag
  else .ok (.text text)

def toInt? : Scalar → Option Int
  | .null => some 0
  | .int n => if IsWord n then some n else none
  | .float x => x.toWord?
  | _ => none

def toFloat? : Scalar → Option Binary64
  | .null => some (.ofInt 0)
  | .int n => some (.ofInt n)
  | .float x => some x
  | _ => none

end Scalar

end LetPoly.Yaml
