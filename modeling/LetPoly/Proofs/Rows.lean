import LetPoly.Proofs.Surface
import LetPoly.Store.Basic
import LetPoly.Ty.Row

namespace LetPoly

namespace Index

variable {α β : Type} {index other : Index α} {value : String → Option α}

theorem Holds.mem_entries (holds : index.Holds value) (name : String) (a : α) :
    (name, a) ∈ index.entries ↔ value name = some a := by
  rw [← holds.get?]
  exact (lookup_eq_some_iff holds.distinct).symm

/-- An index is determined by what is found in it. -/
theorem Holds.unique (holds : index.Holds value) (holds' : other.Holds value) : index = other := by
  have irrefl : Std.Irrefl fun f g : String × α => f.1 < g.1 := ⟨fun f => String.lt_irrefl f.1⟩
  have antisymm : Std.Antisymm fun f g : String × α => f.1 < g.1 :=
    ⟨fun _ _ before after => absurd after (String.lt_asymm before)⟩
  have same : index.entries = other.entries := by
    apply List.Pairwise.eq_of_mem_iff (List.pairwise_map.mp holds.increasing)
      (List.pairwise_map.mp holds'.increasing)
    intro entry
    exact (holds.mem_entries entry.1 entry.2).trans (holds'.mem_entries entry.1 entry.2).symm
  cases index
  cases other
  cases same
  rfl

def map (f : α → β) (index : Index α) : Index β := ⟨index.entries.map (Prod.map id f)⟩

@[simp] theorem names_map (f : α → β) (index : Index α) : (index.map f).names = index.names := by
  simp [names, map]

@[simp] theorem get?_map (f : α → β) (index : Index α) (name : String) :
    (index.map f).get? name = (index.get? name).map f :=
  lookup_map_snd f index.entries name

theorem Holds.map (holds : index.Holds value) (f : α → β) :
    (index.map f).Holds fun name => (value name).map f := by
  have get? (name : String) : (index.map f).get? name = (value name).map f := by
    rw [get?_map, holds.get?]
  refine ⟨get?, fun name => ?_, (names_map f index).symm ▸ holds.increasing⟩
  rw [mem_names_iff, get?]

end Index

namespace Row

def visited (row : Row) : Row := row.visit (fun label t seen => (seen ++ [(label, t)], true)) []

def first? (row : Row) (label : String) : Option Ty :=
  row.visit (fun other t found => if label = other then (some t, false) else (found, true)) none

def unmarked (row : Row) : Row :=
  row.map fun field => if field.2.isMissing then (field.1, .missing) else field

theorem visited_eq (row : Row) : row.visited = row := by
  have run : ∀ seen : Row,
      row.visit (fun label t seen => (seen ++ [(label, t)], true)) seen = seen ++ row := by
    induction row with
    | nil => exact fun seen => (List.append_nil seen).symm
    | cons field row ih =>
      intro seen
      exact (ih (seen ++ [field])).trans (List.append_assoc seen [field] row)
  exact run []

theorem first?_eq_lookup (row : Row) (label : String) : row.first? label = row.lookup label := by
  induction row with
  | nil => rfl
  | cons field row ih =>
    rw [lookup_cons_if, ← ih, first?, visit]
    by_cases here : label = field.1
    · simp only [here, if_true]
    · simp only [here, if_false]
      rfl

theorem mapTypes_eq_map (f : Ty → Ty) (row : Row) : row.mapTypes f = row.map (Prod.map id f) := by
  induction row with
  | nil => rfl
  | cons field row ih =>
    rw [List.map_cons, ← ih]
    rfl

theorem replaceRowM_eq_mapM {m : Type → Type} [Monad m] (f : Leaf → m Ty) (row : Row) :
    Ty.replaceRowM f row = row.mapM (Ty.replaceM f) := by
  induction row with
  | nil => rfl
  | cons field row ih => rw [Ty.replaceRowM, mapM, ih]

theorem fields_holds (row : Row) : row.fields.Holds row.first? := by
  rw [funext row.first?_eq_lookup]
  exact Index.ofList_holds row

theorem fields_mapTypes (f : Ty → Ty) (row : Row) : (row.mapTypes f).fields = row.fields.map f := by
  apply (row.mapTypes f).fields_holds.unique
  have found : (row.mapTypes f).first? = fun label => (row.first? label).map f := by
    funext label
    rw [first?_eq_lookup, first?_eq_lookup, mapTypes_eq_map, lookup_map_snd]
  rw [found]
  exact row.fields_holds.map f

theorem fields_eq_iff (row other : Row) :
    row.fields = other.fields ↔ ∀ label, row.first? label = other.first? label := by
  constructor
  · intro same label
    rw [← row.fields_holds.get?, ← other.fields_holds.get?, same]
  · intro same
    apply row.fields_holds.unique
    rw [funext same]
    exact other.fields_holds

theorem unmarked_newRow (s : Store) (row : Row) : unmarked (s.newRow row).1 = row.unmarked := by
  induction row generalizing s with
  | nil => rfl
  | cons field row ih =>
    obtain ⟨label, t⟩ := field
    cases t with
    | missing mark => exact congrArg (List.cons (label, .missing)) (ih s.freshMissing.2)
    | _ => exact congrArg (List.cons (label, _)) (ih s)

end Row

/-- A row is indexed by its leftmost fields. The labels increase and are those that occur, each is
    found with the type that a visitor meets first, and of rows that agree on this the index is one
    and the same. A missing type is indexed like any other, but neither it nor the list of the labels
    can then be read. Indexing passes over a change of the types, and the fields that a row is made of
    are the fields that are met in it. -/
theorem Row.fields_leftmost (row : Row) :
    row.fields.names.Pairwise (· < ·) ∧
    (∀ label, label ∈ row.fields.names ↔ label ∈ row.visited.map Prod.fst) ∧
    row.fields.size = row.fields.names.length ∧
    (∀ label, row.fields.get? label = row.first? label) ∧
    (row.fields.readNames =
      if row.fields.hasMissing then .error .missingType else .ok row.fields.names) ∧
    (∀ label, row.fields.read? label =
      if (row.first? label).any Ty.isMissing then .error .missingType
      else .ok (row.first? label)) ∧
    (∀ f : Ty → Ty, (row.mapTypes f).fields.names = row.fields.names ∧
      ∀ label, (row.mapTypes f).fields.get? label = (row.fields.get? label).map f) ∧
    (∀ (m : Type → Type) [Monad m] (f : Leaf → m Ty),
      Ty.replaceRowM f row = row.mapM (Ty.replaceM f)) ∧
    (∀ s : Store, (s.newRow row).1.visited.unmarked = row.unmarked) ∧
    ∀ other : Row, row.fields = other.fields ↔ ∀ label, row.first? label = other.first? label := by
  have holds := row.fields_holds
  refine ⟨holds.increasing, fun label => ?_, ?_, holds.get?, row.fields.readNames_eq,
    fun label => ?_, fun f => ?_, ?_, fun s => ?_, row.fields_eq_iff⟩
  · rw [holds.mem_names, visited_eq, first?_eq_lookup, List.lookup_isSome_iff]
    simp
  · exact (List.length_map Prod.fst).symm
  · rw [Index.read?, holds.get?]
  · rw [fields_mapTypes]
    exact ⟨Index.names_map f row.fields, Index.get?_map f row.fields⟩
  · intro m _ f
    exact replaceRowM_eq_mapM f row
  · rw [visited_eq, unmarked_newRow]

end LetPoly
