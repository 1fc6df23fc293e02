import LetPoly.Toml.Scalar

namespace LetPoly.Toml

def skipBlanks (cs : List Char) : List Char := cs.dropWhile isBlank

def skipSpace (comment : Bool) : List Char → List Char
  | [] => []
  | c :: cs =>
    if isLineEnd c then skipSpace false cs
    else if comment || c = '#' then skipSpace true cs
    else if isBlank c then skipSpace false cs
    else c :: cs

def endLine (cs : List Char) : Option (List Char) :=
  match skipBlanks cs with
  | [] => some []
  | c :: cs =>
    if isLineEnd c then some cs
    else if c = '#' then some (cs.dropWhile fun c => !isLineEnd c)
    else none

def readKeyPart (cs : List Char) : Option (String × List Char) :=
  match cs with
  | '"' :: cs => readText ⟨'"', true, false⟩ [] (.content 0) cs
  | '\'' :: cs => readText ⟨'\'', false, false⟩ [] (.content 0) cs
  | cs =>
    let part := cs.takeWhile isBare
    if part.isEmpty then none else some (String.ofList part, cs.dropWhile isBare)

def readKeyWithin : Nat → List Char → Option (Key × List Char)
  | 0, _ => none
  | fuel + 1, cs => do
    let (part, cs) ← readKeyPart (skipBlanks cs)
    match skipBlanks cs with
    | '.' :: cs =>
      let (key, cs) ← readKeyWithin fuel cs
      return (part :: key, cs)
    | cs => return ([part], cs)

def readKey (cs : List Char) : Option (Key × List Char) := readKeyWithin (cs.length + 1) cs

/-- What has been read: all tables, the keys whose values were last written as arrays, the tables
    that only their contents have brought about, and the keys as they stand in the text, the last
    one first. -/
structure Document where
  root : Table := []
  arrays : List Key := []
  implied : List Key := []
  seen : List Key := []
deriving Repr

namespace Document

def keys (d : Document) : List Key := d.seen.reverse

def imply (d : Document) (key : Key) : Document :=
  if d.implied.contains key then d else { d with implied := key :: d.implied }

def note (d : Document) (context : Key) (name : String) (array : Bool) : Document :=
  let key := if name = "" then context else context ++ [name]
  let key := if key.isEmpty then [""] else key
  let others := d.arrays.filter (· ≠ key)
  { d with arrays := if array then key :: others else others }

/-- Gives a name in a table its value. A name that has one already takes no other, unless its table
    is only implied: that is kept, and an array replaces it. -/
def define (d : Document) (context : Key) (name : String) (v : Value) : Option Document := do
  let key := context ++ [name]
  let t ← d.root.follow context
  match t.lookup name with
  | none => return { d with root := ← d.root.change (fun t => some (t.set name v)) context }
  | some old =>
    if !d.implied.contains key then none
    else
      let v := if d.arrays.contains key then v else old
      return { d with
        root := ← d.root.change (fun t => some (t.set name v)) context
        implied := d.implied.filter (· ≠ key) }

def reach (d : Document) (context : Key) : Key → Option Document
  | [] => some d
  | name :: path => do
    let t ← d.root.follow context
    let key := context ++ [name]
    match t.lookup name with
    | some (.table _) | some (.tables _ _) => reach d key path
    | some _ => none
    | none =>
      let root ← d.root.change (fun t => some (t.set name (.table []))) context
      reach (imply { d with root } key) key path

def enter (d : Document) (key : Key) (list : Bool) : Option Document := do
  let name ← key.getLast?
  let d ← d.reach [] key.dropLast
  if list then return { d with root := ← d.root.change (·.extend name) key.dropLast }
  else d.define key.dropLast name (.table [])

def enterParts (d : Document) (context : Key) : Key → Option (Document × Key)
  | [] => some (d, context)
  | part :: parts => do
    let key := context ++ [part]
    enterParts (← (d.imply key).enter key false) key parts

def see (d : Document) (key : Key) : Document := { d with seen := key :: d.seen }

def header (d : Document) (key : Key) (list : Bool) : Option Document := do
  return ((← d.enter key list).note key "" false).see key

mutual

def readValue : Nat → Document → Key → String → Bool → List Char →
    Option (Value × Document × List Char)
  | 0, _, _, _, _, _ => none
  | fuel + 1, d, context, name, inArray, cs =>
    match skipBlanks cs with
    | '[' :: cs => do
      let (items, d, cs) ← readItems fuel (d.note context name true) context name cs
      return (.array items, d, cs)
    | '\x7b' :: cs => do
      let key := context ++ [name]
      let d ← (d.imply key).enter key inArray
      let (entries, d, cs) ← readPairs fuel d key [] cs
      return (.table entries, d, cs)
    | cs => do
      let (v, cs) ← readScalar cs
      return (v, d, cs)

def readItems : Nat → Document → Key → String → List Char →
    Option (List Value × Document × List Char)
  | 0, _, _, _, _ => none
  | fuel + 1, d, context, name, cs =>
    match skipSpace false cs with
    | ']' :: cs => some ([], d, cs)
    | cs => do
      let (v, d, cs) ← readValue fuel d context name true cs
      match skipSpace false cs with
      | ',' :: cs =>
        let (items, d, cs) ← readItems fuel d context name cs
        return (v :: items, d, cs)
      | ']' :: cs => return ([v], d, cs)
      | _ => none

def readPairs : Nat → Document → Key → Table → List Char →
    Option (Table × Document × List Char)
  | 0, _, _, _, _ => none
  | fuel + 1, d, context, t, cs =>
    match skipSpace false cs with
    | '\x7d' :: cs => some (t, d, cs)
    | cs => do
      let (key, v, d, cs) ← readPair fuel d context cs
      let t ← t.insert v key
      match skipSpace false cs with
      | ',' :: cs => readPairs fuel d context t cs
      | '\x7d' :: cs => return (t, d, cs)
      | _ => none

def readPair : Nat → Document → Key → List Char →
    Option (Key × Value × Document × List Char)
  | 0, _, _, _ => none
  | fuel + 1, d, context, cs => do
    let (key, cs) ← readKey cs
    match cs with
    | '=' :: cs =>
      let name ← key.getLast?
      let (d, context) ← d.enterParts context key.dropLast
      let (v, d, cs) ← readValue fuel (d.see (context ++ [name])) context name false cs
      let d ← d.define context name v
      return (key, v, d.note context name v.isArray, cs)
    | _ => none

end

def statement (d : Document) (context : Key) (cs : List Char) :
    Option (Document × Key × List Char) :=
  match cs with
  | '[' :: '[' :: cs => do
    match ← readKey cs with
    | (key, ']' :: ']' :: cs) => return (← d.header key true, key, ← endLine cs)
    | _ => none
  | '[' :: cs => do
    match ← readKey cs with
    | (key, ']' :: cs) => return (← d.header key false, key, ← endLine cs)
    | _ => none
  | cs => do
    let (_, _, d, cs) ← readPair (2 * cs.length + 2) d context cs
    return (d, context, ← endLine cs)

def readWithin : Nat → Document → Key → List Char → Option Document
  | 0, _, _, _ => none
  | fuel + 1, d, context, cs =>
    match skipSpace false cs with
    | [] => some d
    | cs => do
      let (d, context, cs) ← d.statement context cs
      readWithin fuel d context cs

def isClean : List Char → Bool
  | [] => true
  | '\r' :: cs => cs.head? = some '\n' && isClean cs
  | c :: cs => ((0x20 ≤ c.toNat && c.toNat ≠ 0x7f) || c = '\t' || c = '\n') && isClean cs

def ofText? (text : String) : Option Document :=
  let cs :=
    match text.toList with
    | '\ufeff' :: cs => cs
    | cs => cs
  if isClean cs then readWithin (cs.length + 1) {} [] cs else none

end Document

end LetPoly.Toml
