import LetPoly.Inference.Error
import LetPoly.Proofs.Index
import LetPoly.Proofs.Text.EditDistance
import LetPoly.Proofs.Text.Order
import Mathlib.Data.List.Sort

namespace LetPoly

open Text

structure FirstBest (d : String → Nat) (names : List String) (best : String) : Prop where
  mem : best ∈ names
  le : ∀ v ∈ names, d best ≤ d v
  first : ∃ front back, names = front ++ best :: back ∧ ∀ v ∈ front, d best < d v

theorem FirstBest.cons {d : String → Nat} {names : List String} {best : String}
    (firstBest : FirstBest d names best) {other : String} (better : d best < d other) :
    FirstBest d (other :: names) best := by
  obtain ⟨front, back, split, worse⟩ := firstBest.first
  constructor
  · exact List.mem_cons_of_mem other firstBest.mem
  · exact List.forall_mem_cons.mpr ⟨Nat.le_of_lt better, firstBest.le⟩
  · exact ⟨other :: front, back, by rw [split]; rfl, List.forall_mem_cons.mpr ⟨better, worse⟩⟩

theorem foldl_nearer (d : String → Nat) (names : List String) (start : String) (bound : Nat) :
    (names.foldl (nearer d) (start, bound) = (start, bound) ∧ ∀ v ∈ names, bound ≤ d v) ∨
      ∃ best, names.foldl (nearer d) (start, bound) = (best, d best) ∧ d best < bound ∧
        FirstBest d names best := by
  induction names generalizing start bound with
  | nil => exact .inl ⟨rfl, by simp⟩
  | cons name names ih =>
    rw [List.foldl_cons, nearer]
    -- the bound is the distance of the best name so far, so only a later name that is nearer counts
    by_cases better : d name < bound
    · rw [if_pos better]
      right
      rcases ih name (d name) with ⟨result, least⟩ | ⟨best, result, less, firstBest⟩
      · refine ⟨name, result, better, List.mem_cons_self, ?_, [], names, rfl, by simp⟩
        exact List.forall_mem_cons.mpr ⟨Nat.le_refl _, least⟩
      · exact ⟨best, result, Nat.lt_trans less better, firstBest.cons less⟩
    · have worse : bound ≤ d name := Nat.le_of_not_lt better
      rw [if_neg better]
      rcases ih start bound with ⟨result, least⟩ | ⟨best, result, less, firstBest⟩
      · exact .inl ⟨result, List.forall_mem_cons.mpr ⟨worse, least⟩⟩
      · exact .inr ⟨best, result, less, firstBest.cons (Nat.lt_of_lt_of_le less worse)⟩

/-- The name is the least in the order of bytes among those nearest to another. -/
structure Nearest (name : String) (visible : List String) (best : String) : Prop where
  mem : best ∈ visible
  nearest : ∀ v ∈ visible, editDistance name best ≤ editDistance name v
  least : ∀ v ∈ visible, editDistance name v = editDistance name best → v ≠ best →
    bytes best < bytes v

theorem Nearest.congr {name best : String} {visible visible' : List String}
    (nearest : Nearest name visible best) (same : ∀ v, v ∈ visible ↔ v ∈ visible') :
    Nearest name visible' best := by
  refine ⟨(same best).mp nearest.mem, ?_, ?_⟩
  · intro v member
    exact nearest.nearest v ((same v).mpr member)
  · intro v member
    exact nearest.least v ((same v).mpr member)

theorem FirstBest.nearest {name best : String} {visible : List String}
    (firstBest : FirstBest (editDistance name) visible best)
    (increasing : visible.Pairwise (· < ·)) : Nearest name visible best := by
  refine ⟨firstBest.mem, firstBest.le, ?_⟩
  intro v member equal different
  obtain ⟨front, back, rfl, worse⟩ := firstBest.first
  have above := (List.pairwise_cons.mp (List.pairwise_append.mp increasing).2.1).1
  rcases List.mem_append.mp member with before | behind
  · exact absurd equal (Nat.ne_of_gt (worse v before))
  · rcases List.mem_cons.mp behind with same | behind
    · exact absurd same different
    · exact (bytes_lt_iff best v).mpr (above v behind)

theorem suggestion_cases (name : String) {visible : List String}
    (increasing : visible.Pairwise (· < ·)) :
    (suggestion name visible = "" ∧ ∀ v ∈ visible, 2 < editDistance name v) ∨
      (editDistance name (suggestion name visible) ≤ 2 ∧
        Nearest name visible (suggestion name visible)) := by
  rw [suggestion]
  rcases foldl_nearer (editDistance name) visible "" (maxSuggestionDistance + 1) with
    ⟨result, far⟩ | ⟨best, result, near, firstBest⟩
  · rw [result]
    exact .inl ⟨rfl, far⟩
  · rw [result]
    exact .inr ⟨Nat.le_of_lt_succ near, firstBest.nearest increasing⟩

theorem Bindings.suggestion_eq (visible : Bindings) (name : String) :
    visible.suggestion name =
      if visible.hasMissing then .error .missingType
      else .ok (LetPoly.suggestion name visible.names) := by
  rw [Bindings.suggestion, LetPoly.suggestion, Index.names, List.foldl_map,
    visible.visit_all fun candidate _ best => nearer (editDistance name) best candidate]
  split <;> rfl

theorem InferError.report_unknownVariable (pos : Pos) (name : String) (visible : Bindings) :
    (unknownVariable pos name visible).report =
      if visible.hasMissing then .error .missingType
      else .ok (unknownVariable pos name visible).message := by
  rw [report, visible.suggestion_eq]
  split <;> rfl

def Bindings.binding (bound : List (String × Ty)) : Bindings :=
  bound.foldl (fun env (name, t) => env.insert name t) {}

theorem Bindings.binding_holds (bound : List (String × Ty)) :
    (binding bound).Holds fun name => bound.reverse.lookup name := by
  have reversed : binding bound = Index.ofList bound.reverse := by
    rw [binding, Index.ofList, List.foldr_reverse]
  rw [reversed]
  exact Index.ofList_holds bound.reverse

theorem Bindings.mem_names_binding (bound : List (String × Ty)) (name : String) :
    name ∈ (binding bound).names ↔ name ∈ bound.map Prod.fst := by
  rw [(binding_holds bound).mem_names, List.lookup_isSome_iff]
  simp

theorem Bindings.names_binding_eq {bound bound' : List (String × Ty)}
    (same : ∀ name, name ∈ bound.map Prod.fst ↔ name ∈ bound'.map Prod.fst) :
    (binding bound).names = (binding bound').names := by
  apply List.Pairwise.eq_of_mem_iff (binding_holds bound).increasing (binding_holds bound').increasing
  intro name
  rw [mem_names_binding, mem_names_binding, same]

/-- An unknown name is answered with the nearest of the bound names if one is within two edits, and
    of several with the least in the order of bytes. It does not matter in which order the names were
    bound. The visible names are read along with their types, so that no suggestion is made, and no
    message told, if one of them was given no type. -/
theorem suggestion_nearest (name : String) (bound : List (String × Ty)) :
    (∀ v, IsLeast {n | Edits n name.toList v.toList} (editDistance name v)) ∧
      ((∃ v ∈ bound.map Prod.fst, editDistance name v ≤ 2) →
        editDistance name (suggestion name (Bindings.binding bound).names) ≤ 2 ∧
          Nearest name (bound.map Prod.fst) (suggestion name (Bindings.binding bound).names)) ∧
      ((∀ v ∈ bound.map Prod.fst, 2 < editDistance name v) →
        suggestion name (Bindings.binding bound).names = "") ∧
      ((Bindings.binding bound).suggestion name =
        if (Bindings.binding bound).hasMissing then .error .missingType
        else .ok (suggestion name (Bindings.binding bound).names)) ∧
      (∀ pos, (InferError.unknownVariable pos name (Bindings.binding bound)).report =
        if (Bindings.binding bound).hasMissing then .error .missingType
        else .ok (InferError.unknownVariable pos name (Bindings.binding bound)).message) ∧
      ∀ bound', (∀ v, v ∈ bound'.map Prod.fst ↔ v ∈ bound.map Prod.fst) →
        suggestion name (Bindings.binding bound').names =
          suggestion name (Bindings.binding bound).names := by
  have visible := Bindings.mem_names_binding bound
  have cases := suggestion_cases name (Bindings.binding_holds bound).increasing
  refine ⟨editDistance_isLeast name, ?_, ?_, (Bindings.binding bound).suggestion_eq name,
    fun pos => InferError.report_unknownVariable pos name _, ?_⟩
  · intro ⟨v, member, near⟩
    rcases cases with ⟨-, far⟩ | ⟨near, best⟩
    · exact absurd near (Nat.not_le.mpr (far v ((visible v).mpr member)))
    · exact ⟨near, best.congr visible⟩
  · intro far
    rcases cases with ⟨none, -⟩ | ⟨near, best⟩
    · exact none
    · exact absurd near (Nat.not_le.mpr (far _ ((visible _).mp best.mem)))
  · intro bound' same
    rw [Bindings.names_binding_eq same]

end LetPoly
