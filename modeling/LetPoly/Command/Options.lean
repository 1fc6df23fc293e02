import LetPoly.Text.Numeral
import LetPoly.Text.Quoted

namespace LetPoly.Command

/-- What the arguments ask for. A setting that they do not mention is `none`. -/
structure Options where
  config : String := ""
  width : Option Int := none
  level : Option Int := none
  debug : Option Bool := none
  color : Option String := none
  annotate : Bool := false
  dump : Bool := false
  help : Bool := false
  files : List String := []
deriving DecidableEq, Repr

inductive Flag
  | config
  | width
  | level
  | debug
  | color
  | annotate
  | dump
  | help
deriving DecidableEq, Repr

namespace Flag

def name : Flag → String
  | .config => "config"
  | .width => "width"
  | .level => "level"
  | .debug => "debug"
  | .color => "color"
  | .annotate => "annotate"
  | .dump => "dump"
  | .help => "help"

def all : List Flag := [.config, .width, .level, .debug, .color, .annotate, .dump, .help]

def letter? : Flag → Option Char
  | .debug => some 'd'
  | .help => some 'h'
  | _ => none

def ofName? (name : String) : Option Flag := all.find? (·.name = name)

def ofLetter? (c : Char) : Option Flag := all.find? (·.letter? = some c)

def isSwitch : Flag → Bool
  | .debug | .annotate | .dump | .help => true
  | .config | .width | .level | .color => false

def shown (f : Flag) : String :=
  match f.letter? with
  | some c => String.ofList ['-', c] ++ ", --" ++ f.name
  | none => "--" ++ f.name

end Flag

inductive UsageError
  | badSyntax (arg : String)
  | unknownFlag (name : String)
  | unknownLetter (letter : Char) (letters : String)
  | needsArgument (arg : String)
  | badInt (flag : Flag) (value : String) (e : Text.NumeralError)
  | badBool (flag : Flag) (value : String)
  | noFiles
deriving DecidableEq, Repr

namespace UsageError

def badValue (flag : Flag) (value reader reason : String) : String :=
  "invalid argument " ++ Text.quote value ++ " for " ++ Text.quote flag.shown ++
    " flag: strconv." ++ reader ++ ": parsing " ++ Text.quote value ++ ": " ++ reason

def message : UsageError → String
  | .badSyntax arg => "bad flag syntax: " ++ arg
  | .unknownFlag name => "unknown flag: --" ++ name
  | .unknownLetter letter letters =>
    "unknown shorthand flag: " ++ Text.quoteChar letter ++ " in -" ++ letters
  | .needsArgument arg => "flag needs an argument: " ++ arg
  | .badInt flag value .malformed => badValue flag value "ParseInt" "invalid syntax"
  | .badInt flag value .outOfRange => badValue flag value "ParseInt" "value out of range"
  | .badBool flag value => badValue flag value "ParseBool" "invalid syntax"
  | .noFiles => "requires at least 1 arg(s), only received 0"

end UsageError

def readBool? (s : String) : Option Bool :=
  if ["1", "t", "T", "TRUE", "true", "True"].contains s then some true
  else if ["0", "f", "F", "FALSE", "false", "False"].contains s then some false
  else none

namespace Options

def set (o : Options) (f : Flag) (value : String) : Except UsageError Options :=
  let int (g : Int → Options) : Except UsageError Options :=
    match Text.Numeral.readInt value.toList with
    | .ok n => .ok (g n)
    | .error e => .error (.badInt f value e)
  let bool (g : Bool → Options) : Except UsageError Options :=
    match readBool? value with
    | some b => .ok (g b)
    | none => .error (.badBool f value)
  match f with
  | .config => .ok { o with config := value }
  | .width => int fun n => { o with width := some n }
  | .level => int fun n => { o with level := some n }
  | .debug => bool fun b => { o with debug := some b }
  | .color => .ok { o with color := some value }
  | .annotate => bool fun b => { o with annotate := b }
  | .dump => bool fun b => { o with dump := b }
  | .help => bool fun b => { o with help := b }

def shownLetter (c : Char) : Char := if c.toNat < 0x80 then c else 'Ã'

def testMark : List Char := "test.".toList

/-- Takes in letters that stand behind one dash. All of them are switches, and the last may be set
    explicitly. Letters for a test run are passed over. -/
def setLetters (o : Options) : List Char → Except UsageError Options
  | [] => .ok o
  | c :: rest =>
    if testMark.isPrefixOf (c :: rest) then .ok o
    else
      match Flag.ofLetter? c with
      | none => .error (.unknownLetter (shownLetter c) (String.ofList (c :: rest)))
      | some f =>
        match rest with
        | '=' :: v :: value => o.set f (String.ofList (v :: value))
        | _ => do setLetters (← o.set f "true") rest

def splitValue (cs : List Char) : String × Option String :=
  let name := String.ofList (cs.takeWhile (· ≠ '='))
  match cs.dropWhile (· ≠ '=') with
  | [] => (name, none)
  | _ :: value => (name, some (String.ofList value))

/-- Takes in the arguments one by one. Options and files may be mixed, and behind two dashes there
    are only files. -/
def addArgs (o : Options) : List String → Except UsageError Options
  | [] => .ok o
  | arg :: rest =>
    match arg.toList with
    | ['-', '-'] => .ok { o with files := o.files ++ rest }
    | '-' :: '-' :: cs =>
      if cs.head? = some '-' || cs.head? = some '=' then .error (.badSyntax arg)
      else
        let (name, value) := splitValue cs
        match Flag.ofName? name, value with
        | none, _ => .error (.unknownFlag name)
        | some f, some value => do addArgs (← o.set f value) rest
        | some f, none =>
          if f.isSwitch then do addArgs (← o.set f "true") rest
          else
            match rest with
            | [] => .error (.needsArgument arg)
            | value :: rest => do addArgs (← o.set f value) rest
    | '-' :: c :: cs => do addArgs (← o.setLetters (c :: cs)) rest
    | _ => addArgs { o with files := o.files ++ [arg] } rest

def ofArgs (args : List String) : Except UsageError Options := addArgs {} args

end Options

end LetPoly.Command
