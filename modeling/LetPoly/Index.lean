namespace LetPoly

structure Index (α : Type) where
  entries : List (String × α) := []
deriving Repr

namespace Index

variable {α : Type}

def insertInto (name : String) (value : α) : List (String × α) → List (String × α)
  | [] => [(name, value)]
  | (other, kept) :: rest =>
    if name < other then (name, value) :: (other, kept) :: rest
    else if name = other then (name, value) :: rest
    else (other, kept) :: insertInto name value rest

def insert (index : Index α) (name : String) (value : α) : Index α :=
  ⟨insertInto name value index.entries⟩

def get? (index : Index α) (name : String) : Option α :=
  index.entries.lookup name

def names (index : Index α) : List String :=
  index.entries.map Prod.fst

def size (index : Index α) : Nat :=
  index.entries.length

/-- The index of a list of named values. Of two values with one name the first is kept. -/
def ofList (fields : List (String × α)) : Index α :=
  fields.foldr (fun (name, value) index => index.insert name value) {}

theorem lookup_insertInto (name other : String) (value : α) (entries : List (String × α)) :
    (insertInto name value entries).lookup other =
      if other = name then some value else entries.lookup other := by
  induction entries with
  | nil =>
    by_cases h : other = name
    · simp [insertInto, h]
    · simp [insertInto, List.lookup_cons, beq_eq_false_iff_ne.mpr h, h]
  | cons entry rest ih =>
    obtain ⟨next, kept⟩ := entry
    simp only [insertInto]
    by_cases h : other = name
    · subst h
      split
      · simp
      · split
        · simp
        · rename_i differs
          simp [List.lookup_cons, beq_eq_false_iff_ne.mpr differs, ih]
    · split
      · simp [List.lookup_cons, beq_eq_false_iff_ne.mpr h]
      · split
        · rename_i same
          subst same
          simp [List.lookup_cons, beq_eq_false_iff_ne.mpr h]
        · simp [List.lookup_cons, ih, h]

theorem get?_insert (index : Index α) (name other : String) (value : α) :
    (index.insert name value).get? other = if other = name then some value else index.get? other :=
  lookup_insertInto name other value index.entries

end Index

end LetPoly
