import LetPoly.Binary64.Basic

namespace LetPoly.Toml

abbrev Key := List String

/-- A value. The tables of a list of tables stand apart from the last one, which is still open. -/
inductive Value
  | string (s : String)
  | int (n : Int)
  | float (x : Binary64)
  | bool (b : Bool)
  | datetime
  | array (items : List Value)
  | table (entries : List (String × Value))
  | tables (earlier : List (List (String × Value))) (last : List (String × Value))
deriving Repr

abbrev Table := List (String × Value)

def Value.isArray : Value → Bool
  | .array _ => true
  | _ => false

namespace Table

def set (t : Table) (name : String) (v : Value) : Table :=
  match t with
  | [] => [(name, v)]
  | (other, w) :: rest => if other = name then (name, v) :: rest else (other, w) :: set rest name v

def follow : Key → Table → Option Table
  | [], t => some t
  | name :: path, t =>
    match t.lookup name with
    | some (.table entries) => follow path entries
    | some (.tables _ last) => follow path last
    | _ => none

def change (f : Table → Option Table) : Key → Table → Option Table
  | [], t => f t
  | name :: path, t =>
    match t.lookup name with
    | some (.table entries) => do return t.set name (.table (← change f path entries))
    | some (.tables earlier last) => do
      return t.set name (.tables earlier (← change f path last))
    | _ => none

def insert (v : Value) : Key → Table → Option Table
  | [], _ => none
  | [name], t => some (t.set name v)
  | name :: key, t =>
    match t.lookup name with
    | none => do return t.set name (.table (← insert v key []))
    | some (.table entries) => do return t.set name (.table (← insert v key entries))
    | some _ => none

def extend (name : String) (t : Table) : Option Table :=
  match t.lookup name with
  | none => some (t.set name (.tables [] []))
  | some (.tables earlier last) => some (t.set name (.tables (last :: earlier) []))
  | some _ => none

end Table

def isBare (c : Char) : Bool := c.isAlphanum || c = '_' || c = '-'

def showKeyChar (c : Char) : List Char :=
  let hex (n : Nat) := Nat.digitChar (n % 16)
  match c with
  | '"' => ['\\', '"']
  | '\\' => ['\\', '\\']
  | '\x08' => ['\\', 'b']
  | '\t' => ['\\', 't']
  | '\n' => ['\\', 'n']
  | '\x0c' => ['\\', 'f']
  | '\r' => ['\\', 'r']
  | c =>
    if c.toNat < 0x20 || c.toNat = 0x7f then
      ['\\', 'u', '0', '0', hex (c.toNat / 16), hex c.toNat]
    else [c]

def showKeyPart (part : String) : String :=
  if part ≠ "" && part.toList.all isBare then part
  else String.ofList ('"' :: (part.toList.flatMap showKeyChar ++ ['"']))

def Key.toText (k : Key) : String := ".".intercalate (k.map showKeyPart)

end LetPoly.Toml
