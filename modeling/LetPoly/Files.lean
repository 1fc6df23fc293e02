namespace LetPoly

inductive PathError
  | missing
  | notDirectory
  | tooLong
  | invalid
deriving DecidableEq, Repr

def PathError.reason : PathError → String
  | .missing => "no such file or directory"
  | .notDirectory => "not a directory"
  | .tooLong => "file name too long"
  | .invalid => "invalid argument"

inductive Entry
  | nowhere (e : PathError)
  | directory
  | file (text : String)
deriving DecidableEq, Repr

abbrev Files := String → Entry

inductive FileError
  | nowhere (e : PathError)
  | directory
deriving DecidableEq, Repr

def FileError.message (path : String) : FileError → String
  | .nowhere e => s!"open {path}: " ++ e.reason
  | .directory => s!"read {path}: is a directory"

namespace Files

def read (files : Files) (path : String) : Except FileError String :=
  match files path with
  | .nowhere e => .error (.nowhere e)
  | .directory => .error .directory
  | .file text => .ok text

def has (files : Files) (path : String) : Bool :=
  match files path with
  | .nowhere _ => false
  | .directory | .file _ => true

end Files

/-- A directory, by the names on the way to it from the root. -/
abbrev Dir := List String

namespace Dir

def join (d : Dir) (name : String) : String := String.join ((d ++ [name]).map ("/" ++ ·))

/-- The directory that a path names when it is read in another one. Nothing lies above the root. -/
def enter (d : Dir) (path : String) : Dir :=
  let start : Dir := if path.startsWith "/" then [] else d
  (path.splitOn "/").foldl
    (fun dir part =>
      if part = "" || part = "." then dir
      else if part = ".." then dir.dropLast
      else dir ++ [part])
    start

end Dir

end LetPoly
