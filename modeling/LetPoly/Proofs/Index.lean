import LetPoly.Ty.Row
import Mathlib.Tactic.ByContra

namespace LetPoly

theorem lookup_cons_if {α : Type} (field : String × α) (fields : List (String × α)) (label : String) :
    (field :: fields).lookup label = if label = field.1 then some field.2 else fields.lookup label := by
  rw [List.lookup_cons]
  by_cases same : label = field.1
  · simp [same]
  · simp [same, beq_eq_false_iff_ne.mpr same]

namespace Index

variable {α : Type} {index : Index α} {value : String → Option α}

/-- The index has just these values, and its names increase. -/
structure Holds (index : Index α) (value : String → Option α) : Prop where
  get? : ∀ name, index.get? name = value name
  mem_names : ∀ name, name ∈ index.names ↔ (value name).isSome
  increasing : index.names.Pairwise (· < ·)

theorem mem_names_iff (index : Index α) (name : String) :
    name ∈ index.names ↔ (index.get? name).isSome := by
  simp [names, Index.get?, List.lookup_isSome_iff]

theorem holds_empty : ({} : Index α).Holds fun _ => none :=
  ⟨fun _ => rfl, fun name => mem_names_iff {} name, List.Pairwise.nil⟩

theorem increasing_insertInto (name : String) (new : α) (entries : List (String × α))
    (increasing : (entries.map Prod.fst).Pairwise (· < ·)) :
    ((insertInto name new entries).map Prod.fst).Pairwise (· < ·) := by
  induction entries with
  | nil => exact List.pairwise_singleton _ _
  | cons entry rest ih =>
    obtain ⟨other, kept⟩ := entry
    obtain ⟨above, increasing'⟩ := List.pairwise_cons.mp increasing
    simp only [insertInto]
    split
    · rename_i before
      refine List.pairwise_cons.mpr ⟨fun later member => ?_, increasing⟩
      rcases List.mem_cons.mp member with rfl | member
      · exact before
      · exact String.lt_trans before (above later member)
    · rename_i notBefore
      split
      · rename_i same
        exact same ▸ increasing
      · rename_i different
        refine List.pairwise_cons.mpr ⟨fun later member => ?_, ih increasing'⟩
        -- the names behind this one are the new name and those that were there
        have found := (mem_names_iff ((⟨rest⟩ : Index α).insert name new) later).mp member
        rw [get?_insert] at found
        split at found
        · rename_i same
          have le : other ≤ name := String.not_lt.mp notBefore
          by_contra before
          exact different (String.le_antisymm (String.not_lt.mp (same ▸ before)) le)
        · exact above later ((mem_names_iff ⟨rest⟩ later).mpr found)

theorem Holds.insert (holds : index.Holds value) (name : String) (new : α) :
    (index.insert name new).Holds fun other => if other = name then some new else value other := by
  have get? (other : String) : (index.insert name new).get? other =
      if other = name then some new else value other := by
    rw [get?_insert, holds.get?]
  refine ⟨get?, fun other => ?_, increasing_insertInto name new index.entries holds.increasing⟩
  rw [mem_names_iff, get?]

theorem Holds.distinct (holds : index.Holds value) : index.names.Nodup := by
  refine holds.increasing.imp ?_
  rintro label _ before rfl
  exact String.lt_irrefl label before

theorem ofList_holds (fields : List (String × α)) :
    (ofList fields).Holds fun name => fields.lookup name := by
  induction fields with
  | nil => exact holds_empty
  | cons field rest ih =>
    simp only [lookup_cons_if]
    exact ih.insert field.1 field.2

theorem size_eq_of_labels {fields fields' : List (String × α)}
    (same : ∀ label, (fields.lookup label).isSome ↔ (fields'.lookup label).isSome) :
    (ofList fields).size = (ofList fields').size := by
  have holds := ofList_holds fields
  have holds' := ofList_holds fields'
  have perm : (ofList fields).names.Perm (ofList fields').names := by
    refine (List.perm_ext_iff_of_nodup holds.distinct holds'.distinct).mpr fun label => ?_
    rw [holds.mem_names, holds'.mem_names, same]
  simpa [names, size] using perm.length_eq

theorem visitFrom_all {σ : Type} (g : String → Ty → σ → σ) (entries : List (String × Ty)) (seen : σ) :
    visitFrom (fun name t seen => (g name t seen, true)) entries seen =
      if entries.any fun entry => entry.2.isMissing then .error .missingType
      else .ok (entries.foldl (fun seen entry => g entry.1 entry.2 seen) seen) := by
  induction entries generalizing seen with
  | nil => rfl
  | cons entry rest ih =>
    rw [visitFrom, List.any_cons]
    cases entry.2.isMissing with
    | true => rfl
    | false => exact ih (g entry.1 entry.2 seen)

/-- A visitor that wants to see all stumbles over a missing type, wherever it is. -/
theorem visit_all {σ : Type} (index : Index Ty) (g : String → Ty → σ → σ) (seen : σ) :
    index.visit (fun name t seen => (g name t seen, true)) seen =
      if index.hasMissing then .error .missingType
      else .ok (index.entries.foldl (fun seen entry => g entry.1 entry.2 seen) seen) :=
  visitFrom_all g index.entries seen

theorem readNames_eq (index : Index Ty) :
    index.readNames = if index.hasMissing then .error .missingType else .ok index.names := by
  have listed : index.entries.foldl (fun seen entry => seen ++ [entry.1]) [] = index.names := by
    rw [List.foldl_append_eq_append, ← List.flatMap_def]
    exact List.map_eq_flatMap.symm
  rw [readNames, visit_all index fun name _ seen => seen ++ [name], listed]

end Index

end LetPoly
