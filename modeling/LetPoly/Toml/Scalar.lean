import LetPoly.Text.Calendar
import LetPoly.Text.Numeral
import LetPoly.Toml.Table

namespace LetPoly.Toml

structure Quoting where
  mark : Char
  escapes : Bool
  multi : Bool
deriving DecidableEq, Repr

inductive TextState
  | content (marks : Nat)
  | escape
  | code (left value : Nat)
  | trim (broken : Bool)
deriving DecidableEq, Repr

def isBlank (c : Char) : Bool := c = ' ' || c = '\t'

def isLineEnd (c : Char) : Bool := c = '\n' || c = '\r'

def escaped? (c : Char) : Option Char :=
  match c with
  | 'b' => some '\x08'
  | 't' => some '\t'
  | 'n' => some '\n'
  | 'f' => some '\x0c'
  | 'r' => some '\r'
  | 'e' => some '\x1b'
  | '"' => some '"'
  | '\\' => some '\\'
  | _ => none

def hexDigit? (c : Char) : Option Nat := Text.Numeral.digit? 16 c

/-- Behind a backslash at the end of a line the next character that is not white space counts again.
    -/
def TextState.resume (state : TextState) (c : Char) : TextState :=
  match state with
  | .trim true => if isBlank c || isLineEnd c then .trim true else .content 0
  | state => state

/-- Reads a quoted text behind its opening mark. Of up to five marks at the end of a text of several
    lines the last three close it. -/
def readText (q : Quoting) (seen : List Char) (state : TextState) :
    List Char → Option (String × List Char)
  | [] =>
    match state with
    | .content marks =>
      if q.multi && 3 ≤ marks then
        some (String.ofList (List.replicate (marks - 3) q.mark ++ seen).reverse, [])
      else none
    | _ => none
  | c :: cs =>
    match state.resume c with
    | .content marks =>
      if c = q.mark then
        if !q.multi then some (String.ofList seen.reverse, cs)
        else if marks = 5 then none
        else readText q seen (.content (marks + 1)) cs
      else if q.multi && 3 ≤ marks then
        some (String.ofList (List.replicate (marks - 3) q.mark ++ seen).reverse, c :: cs)
      else
        let seen := List.replicate marks q.mark ++ seen
        if q.escapes && c = '\\' then readText q seen .escape cs
        else if !q.multi && isLineEnd c then none
        else readText q (c :: seen) (.content 0) cs
    | .escape =>
      if q.multi && (isBlank c || isLineEnd c) then readText q seen (.trim (c = '\n')) cs
      else if c = 'x' then readText q seen (.code 2 0) cs
      else if c = 'u' then readText q seen (.code 4 0) cs
      else if c = 'U' then readText q seen (.code 8 0) cs
      else
        match escaped? c with
        | some d => readText q (d :: seen) (.content 0) cs
        | none => none
    | .code left value =>
      match hexDigit? c with
      | none => none
      | some digit =>
        let value := value * 16 + digit
        if 1 < left then readText q seen (.code (left - 1) value) cs
        else if value < 0xd800 || (0xdfff < value && value < 0x110000) then
          readText q (Char.ofNat value :: seen) (.content 0) cs
        else none
    | .trim broken =>
      if isBlank c || isLineEnd c then readText q seen (.trim (broken || c = '\n')) cs else none

def dropFirstLineEnd : List Char → List Char
  | '\n' :: cs => cs
  | '\r' :: '\n' :: cs => cs
  | cs => cs

def readString : List Char → Option (String × List Char)
  | '"' :: '"' :: '"' :: cs => readText ⟨'"', true, true⟩ [] (.content 0) (dropFirstLineEnd cs)
  | '\'' :: '\'' :: '\'' :: cs => readText ⟨'\'', false, true⟩ [] (.content 0) (dropFirstLineEnd cs)
  | '"' :: cs => readText ⟨'"', true, false⟩ [] (.content 0) cs
  | '\'' :: cs => readText ⟨'\'', false, false⟩ [] (.content 0) cs
  | _ => none

def underscoresOk (cs : List Char) : Bool := behind false cs
where
  behind (digit : Bool) : List Char → Bool
    | [] => digit
    | c :: cs => (c ≠ '_' || digit) && behind (hexDigit? c).isSome cs

def leadingZero : List Char → Bool
  | '0' :: _ :: _ => true
  | '-' :: '0' :: _ :: _ => true
  | '+' :: '0' :: _ :: _ => true
  | _ => false

def namedBase? : List Char → Option (Nat × List Char)
  | '0' :: 'b' :: cs => some (2, cs)
  | '0' :: 'o' :: cs => some (8, cs)
  | '0' :: 'x' :: cs => some (16, cs)
  | _ => none

def readInt (word : List Char) : Option Value :=
  let n? :=
    match namedBase? word with
    | some (base, digits) =>
      if (digits.head?.bind hexDigit?).isNone || !underscoresOk digits then none
      else
        (Text.Numeral.readNatIn base (digits.filter (· ≠ '_'))).toOption.bind fun n =>
          if n < wordLimit then some (n : Int) else none
    | none =>
      if leadingZero word || !underscoresOk word then none
      else (Text.Numeral.readIntIn 10 (word.filter (· ≠ '_'))).toOption
  n?.map .int

def pointsOk : List Char → Bool
  | [] => true
  | ['.'] => false
  | '.' :: d :: cs => d.isDigit && pointsOk cs
  | _ :: cs => pointsOk cs

def isFloatMark (c : Char) : Bool := c = '.' || c = 'e' || c = 'E'

def floatParts (word : List Char) : List (List Char) :=
  (word.splitOnP isFloatMark).filter fun part => !part.isEmpty

def readFloat (word : List Char) : Option Value :=
  let text := String.ofList word
  if ["inf", "+inf"].contains text then some (.float (.infinite false))
  else if text = "-inf" then some (.float (.infinite true))
  else if ["nan", "+nan", "-nan"].contains text then some (.float .nan)
  else
    let parts := floatParts word
    if !word.any isFloatMark || word.head?.any isFloatMark then none
    else if !parts.all underscoresOk || parts.head?.any leadingZero || !pointsOk word then none
    else do
      let d ← Text.Decimal.ofChars? (word.filter (· ≠ '_'))
      return .float (← Binary64.ofDecimal? d.negative d.digits d.exponent)

def twoDigits (a b : Char) : Option Nat :=
  if a.isDigit && b.isDigit then some ((a.toNat - 48) * 10 + (b.toNat - 48)) else none

def readSeconds : List Char → Option (List Char)
  | ':' :: a :: b :: rest => do
    guard ((← twoDigits a b) < 60)
    match rest with
    | '.' :: c :: more => if c.isDigit then some (more.dropWhile Char.isDigit) else none
    | _ => some rest
  | rest => some rest

def readTime : List Char → Option (List Char)
  | a :: b :: ':' :: c :: d :: rest => do
    guard ((← twoDigits a b) < 24 && (← twoDigits c d) < 60)
    readSeconds rest
  | _ => none

def readDate : List Char → Option (List Char)
  | a :: b :: c :: d :: '-' :: e :: f :: '-' :: g :: h :: rest => do
    let year := (← twoDigits a b) * 100 + (← twoDigits c d)
    let month ← twoDigits e f
    let day ← twoDigits g h
    guard (Text.Calendar.isDay year month day)
    return rest
  | _ => none

def isOffset : List Char → Bool
  | [] | ['Z'] | ['z'] => true
  | [sign, a, b, ':', c, d] =>
    (sign = '+' || sign = '-') && (twoDigits a b).any (· ≤ 24) && (twoDigits c d).any (· ≤ 60)
  | _ => false

def isDatetime (word : List Char) : Bool :=
  match readDate word with
  | some [] => true
  | some (mark :: rest) =>
    (mark = 'T' || mark = 't' || mark = ' ') && (readTime rest).any isOffset
  | none => (readTime word).any List.isEmpty

def startsDatetime (cs : List Char) : Bool :=
  match cs.takeWhile Char.isDigit, cs.dropWhile Char.isDigit with
  | _ :: _ :: _, c :: _ => c = '-' || c = ':'
  | _, _ => false

def isDatetimeChar (c : Char) : Bool := c.isDigit || "-:Tt .Zz+".toList.contains c

def isNumberChar (c : Char) : Bool := c.isAlphanum || "_.+-".toList.contains c

def dropTrailingSpaces (cs : List Char) : List Char := (cs.reverse.dropWhile (· = ' ')).reverse

def readScalar (cs : List Char) : Option (Value × List Char) :=
  match cs with
  | [] => none
  | c :: _ =>
    if c = '"' || c = '\'' then (readString cs).map fun (s, rest) => (.string s, rest)
    else if startsDatetime cs then
      if isDatetime (dropTrailingSpaces (cs.takeWhile isDatetimeChar)) then
        some (.datetime, cs.dropWhile isDatetimeChar)
      else none
    else
      let word := cs.takeWhile isNumberChar
      let rest := cs.dropWhile isNumberChar
      let v? :=
        if word = "true".toList then some (.bool true)
        else if word = "false".toList then some (.bool false)
        else readInt word <|> readFloat word
      v?.map (·, rest)

end LetPoly.Toml
