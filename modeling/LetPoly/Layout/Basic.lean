import LetPoly.Text.Width
import LetPoly.Word

namespace LetPoly.Layout

inductive Doc
  | text (s : String)
  | line
  | cut (broken flat : String)
  | nest (indent : Int) (doc : Doc)
  | group (doc : Doc)
  | concat (docs : List Doc)

inductive Mode
  | broken
  | flat
deriving DecidableEq

def Doc.nil : Doc := .concat []

def Doc.join (docs : List Doc) (separator : Doc) : Doc :=
  .concat (docs.intersperse separator)

mutual

def Doc.weight : Doc → Nat
  | .text _ => 1
  | .line => 1
  | .cut _ _ => 1
  | .nest _ doc => doc.weight + 1
  | .group doc => doc.weight + 1
  | .concat docs => weightAll docs + 1

def weightAll : List Doc → Nat
  | [] => 0
  | doc :: docs => doc.weight + weightAll docs

end

/-- A document that waits to be written, with the indentation and the mode it is met in. Columns
    are signed words, so a nest that goes too far wraps around. -/
structure Pending where
  indent : Int
  mode : Mode
  doc : Doc

def pendingWeight (queue : List Pending) : Nat :=
  queue.foldr (fun item n => item.doc.weight + n) 0

def Pending.spread (item : Pending) (docs : List Doc) : List Pending :=
  docs.map fun doc => { item with doc }

theorem pendingWeight_cons (item : Pending) (queue : List Pending) :
    pendingWeight (item :: queue) = item.doc.weight + pendingWeight queue := by
  simp [pendingWeight]

theorem pendingWeight_spread (item : Pending) (docs : List Doc) (queue : List Pending) :
    pendingWeight (item.spread docs ++ queue) = weightAll docs + pendingWeight queue := by
  induction docs with
  | nil => simp [Pending.spread, weightAll]
  | cons doc docs ih =>
    simp only [Pending.spread, List.map_cons, List.cons_append, pendingWeight_cons,
      weightAll] at ih ⊢
    omega

/-- Whether the queue, up to the end of its first line, takes at most `room` columns. -/
def fits (room : Int) (queue : List Pending) : Bool :=
  if room < 0 then false
  else
    match queue with
    | [] => true
    | ⟨indent, mode, doc⟩ :: rest =>
      match doc with
      | .text s => fits (room - Text.width s) rest
      | .line => true
      | .cut _ flat =>
        match mode with
        | .broken => true
        | .flat => fits (room - Text.width flat) rest
      | .nest step doc => fits room (⟨wrap64 (indent + step), mode, doc⟩ :: rest)
      | .group doc => fits room (⟨indent, mode, doc⟩ :: rest)
      | .concat docs => fits room (Pending.spread ⟨indent, mode, .nil⟩ docs ++ rest)
termination_by pendingWeight queue
decreasing_by
  all_goals
    simp only [pendingWeight_cons, pendingWeight_spread, Doc.weight]
    omega

def newline (indent : Int) : String :=
  String.ofList ('\n' :: List.replicate indent.toNat ' ')

/-- Writes the queue behind `out`, whose last line ends at column `col`. -/
def write (width : Int) (out : String) (col : Int) (queue : List Pending) : String :=
  match queue with
  | [] => out
  | ⟨indent, mode, doc⟩ :: rest =>
    match doc with
    | .text s => write width (out ++ s) (wrap64 (col + Text.width s)) rest
    | .line => write width (out ++ newline indent) indent rest
    | .cut broken flat =>
      match mode with
      | .flat => write width (out ++ flat) (wrap64 (col + Text.width flat)) rest
      | .broken => write width (out ++ broken ++ newline indent) indent rest
    | .nest step doc => write width out col (⟨wrap64 (indent + step), mode, doc⟩ :: rest)
    | .group doc =>
      let flat : Pending := ⟨indent, .flat, doc⟩
      if mode = .flat || fits (wrap64 (width - col)) (flat :: rest) then
        write width out col (flat :: rest)
      else
        write width out col (⟨indent, .broken, doc⟩ :: rest)
    | .concat docs => write width out col (Pending.spread ⟨indent, mode, .nil⟩ docs ++ rest)
termination_by pendingWeight queue
decreasing_by
  all_goals
    simp only [pendingWeight_cons, pendingWeight_spread, Doc.weight]
    omega

def Doc.format (width : Int) (doc : Doc) : String :=
  write width "" 0 [⟨0, .broken, .group doc⟩]

end LetPoly.Layout
