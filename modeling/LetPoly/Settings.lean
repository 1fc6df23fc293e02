import LetPoly.Files
import LetPoly.Text.Quoted
import LetPoly.Toml.Document

namespace LetPoly

structure Settings where
  width : Int := 80
  level : Int := 1
  color : String := "auto"
  debug : Bool := false
deriving DecidableEq, Repr

inductive SettingsError
  | width (n : Int)
  | level (n : Int)
  | color (s : String)
deriving DecidableEq, Repr

def SettingsError.message : SettingsError → String
  | .width n => s!"width must be positive, got {n}"
  | .level n => s!"level must not be negative, got {n}"
  | .color s => "color must be \"auto\", \"always\" or \"never\", got " ++ Text.quote s

inductive SettingsFileError
  | file (e : FileError)
  | malformed (text : String)
  | unknown (key : String)
  | invalid (e : SettingsError)
deriving DecidableEq, Repr

/-- What is wrong with a malformed text is left to `complain`. -/
def SettingsFileError.message (complain : String → String) (path : String) :
    SettingsFileError → String
  | .file e => s!"parsing {path}: " ++ e.message path
  | .malformed text => s!"parsing {path}: " ++ complain text
  | .unknown key => s!"parsing {path}: unknown setting " ++ Text.quote key
  | .invalid e => s!"{path}: " ++ e.message

namespace Settings

def colors : List String := ["auto", "always", "never"]

def check (s : Settings) : Except SettingsError Settings :=
  if s.width ≤ 0 then .error (.width s.width)
  else if s.level < 0 then .error (.level s.level)
  else if !colors.contains s.color then .error (.color s.color)
  else .ok s

def useColor (s : Settings) (terminal : Bool) : Bool :=
  s.color = "always" || (s.color ≠ "never" && terminal)

def nameOf (key : String) : Option String :=
  let name := String.ofList (key.toList.map Char.toLower)
  if ["width", "level", "color", "debug"].contains name then some name else none

def set (s : Settings) (name : String) (v : Toml.Value) : Option Settings :=
  match name, v with
  | "width", .int n => some { s with width := n }
  | "level", .int n => some { s with level := n }
  | "color", .string c => some { s with color := c }
  | "debug", .bool b => some { s with debug := b }
  | _, _ => none

def setAll (s : Settings) : Toml.Table → Option Settings
  | [] => some s
  | (key, v) :: rest =>
    match nameOf key with
    | none => setAll s rest
    | some name => do setAll (← s.set name v) rest

def isKnown (key : Toml.Key) : Bool :=
  match key with
  | [name] => (nameOf name).isSome
  | _ => false

/-- The settings of a file. A mistake in its text comes before an unknown key, and that before a
    value out of range. -/
def ofText (text : String) : Except SettingsFileError Settings :=
  match Toml.Document.ofText? text with
  | none => .error (.malformed text)
  | some d =>
    match setAll {} d.root, d.keys.find? (!isKnown ·) with
    | none, _ => .error (.malformed text)
    | some _, some key => .error (.unknown key.toText)
    | some s, none => s.check.mapError .invalid

def load (files : Files) (path : String) : Except SettingsFileError Settings :=
  match files.read path with
  | .error e => .error (.file e)
  | .ok text => ofText text

def fileName : String := "hindley.toml"

/-- The nearest settings file, going up from a directory, given by its names from the last to the
    first. The search ends at the root of a repository. -/
def search (files : Files) : List String → Option String
  | [] =>
    let path := Dir.join [] fileName
    if files.has path then some path else none
  | name :: above =>
    let dir : Dir := (name :: above).reverse
    let path := dir.join fileName
    if files.has path then some path
    else if files.has (dir.join ".git") then none
    else search files above

def nearest (files : Files) (dir : Dir) : Option String := search files dir.reverse

def find (files : Files) (dir : Dir) :
    Except (String × SettingsFileError) (Option (String × Settings)) :=
  match nearest files dir with
  | none => .ok none
  | some path =>
    match load files path with
    | .error e => .error (path, e)
    | .ok s => .ok (some (path, s))

end Settings

end LetPoly
