import LetPoly.Proofs.Decoding.Grammar

namespace LetPoly

open Yaml (Node Decoded)

namespace Yaml.Node

variable {n v : Node} {key : String} {items : List Node} {pairs : List (Node × Node)}

theorem single_eq_ok_iff : n.single = .ok (key, v) ↔ n.Tagged key v := by
  unfold single Tagged
  constructor
  · intro done
    split at done
    · cases done
      exact ⟨_, _, rfl, rfl⟩
    · cases done
  · rintro ⟨pos, k, rfl, rfl⟩
    rfl

theorem pairs_eq_ok_iff : n.pairs = .ok pairs ↔ ∃ pos, n = .mapping pos pairs := by
  unfold Node.pairs
  constructor
  · intro done
    split at done
    · cases done
      exact ⟨_, rfl⟩
    · cases done
  · rintro ⟨pos, rfl⟩
    rfl

theorem items_eq_ok_iff : n.items = .ok items ↔ n.Lists items := by
  unfold Node.items Lists
  constructor
  · intro done
    split at done
    · cases done
      exact ⟨_, rfl⟩
    · cases done
  · rintro ⟨pos, rfl⟩
    rfl

theorem lookup?_eq_some_iff : lookup? key pairs = some v ↔ ∃ before k after,
    pairs = before ++ (k, v) :: after ∧ k.text = key ∧ ∀ pair ∈ after, pair.1.text ≠ key := by
  simp only [lookup?, Option.map_eq_some_iff, List.find?_eq_some_iff_append, decide_eq_true_eq]
  constructor
  · rintro ⟨⟨k, _⟩, ⟨named, after, before, split, none⟩, rfl⟩
    refine ⟨before.reverse, k, after.reverse, ?_, named, fun pair member => ?_⟩
    · have back := congrArg List.reverse split
      simpa using back
    · simpa using none pair (List.mem_reverse.mp member)
  · rintro ⟨before, k, after, rfl, named, none⟩
    refine ⟨(k, v), ⟨named, after.reverse, before.reverse, by simp, fun pair member => ?_⟩, rfl⟩
    simpa using none pair (List.mem_reverse.mp member)

theorem lookup?_eq_none_iff : lookup? key pairs = none ↔ ∀ pair ∈ pairs, pair.1.text ≠ key := by
  simp [lookup?]

theorem lookup?_eq_some_iff_has (known : n.pairs = .ok pairs) :
    lookup? key pairs = some v ↔ n.Has key v := by
  obtain ⟨pos, rfl⟩ := pairs_eq_ok_iff.mp known
  rw [lookup?_eq_some_iff]
  constructor
  · rintro ⟨before, k, after, rfl, rest⟩
    exact ⟨pos, before, k, after, rfl, rest⟩
  · rintro ⟨_, before, k, after, ⟨⟩, rest⟩
    exact ⟨before, k, after, rfl, rest⟩

theorem lookup?_eq_none_iff_lacks (known : n.pairs = .ok pairs) :
    lookup? key pairs = none ↔ n.Lacks key := by
  obtain ⟨pos, rfl⟩ := pairs_eq_ok_iff.mp known
  rw [lookup?_eq_none_iff]
  constructor
  · intro none
    exact ⟨pos, pairs, rfl, none⟩
  · rintro ⟨_, _, ⟨⟩, none⟩
    exact none

theorem field_eq_ok_iff (known : n.pairs = .ok pairs) :
    n.field pairs key = .ok v ↔ n.Has key v := by
  rw [← lookup?_eq_some_iff_has known, field]
  cases lookup? key pairs with
  | none =>
    constructor <;> intro done <;> cases done
  | some w => simp

theorem Tagged.has (tagged : n.Tagged key v) : n.Has key v := by
  obtain ⟨pos, k, rfl, named⟩ := tagged
  exact ⟨pos, [], k, [], rfl, named, fun pair member => by cases member⟩

theorem Has.mapping (has : n.Has key v) : ∃ pairs, n.pairs = .ok pairs := by
  obtain ⟨pos, before, k, after, rfl, -⟩ := has
  exact ⟨_, rfl⟩

-- A node is nested further than what a layer of the grammar finds under its keys.

theorem Has.depth_lt (has : n.Has key v) : v.depth < n.depth := by
  obtain ⟨pos, before, k, after, rfl, -⟩ := has
  apply Nat.lt_succ_of_le
  induction before with
  | nil => exact Nat.le_trans (Nat.le_max_right _ _) (Nat.le_max_left _ _)
  | cons pair rest ih => exact Nat.le_trans ih (Nat.le_max_right _ _)

theorem Lists.depth_lt (list : n.Lists items) {m : Node} (member : m ∈ items) :
    m.depth < n.depth := by
  obtain ⟨pos, rfl⟩ := list
  apply Nat.lt_succ_of_le
  induction member with
  | head => exact Nat.le_max_left _ _
  | tail _ _ ih => exact Nat.le_trans ih (Nat.le_max_right _ _)

theorem MayList.depth_lt (list : n.MayList key items) {m : Node} (member : m ∈ items) :
    m.depth < n.depth := by
  obtain ⟨-, rfl⟩ | ⟨v, has, list⟩ := list
  · cases member
  · exact Nat.lt_trans (list.depth_lt member) has.depth_lt

end Yaml.Node

section Optional

variable {α β : Type} {sub : Node → Decoded α} {n : Node} {key : String} {pairs : List (Node × Node)}
  {give : List α → β} {result : β}

theorem optional_eq_ok_iff (known : n.pairs = .ok pairs) :
    (match Node.lookup? key pairs with
      | none => pure (give [])
      | some v => do return give (← (← v.items).mapM sub)) = Except.ok result ↔
      ∃ items parts, n.MayList key items ∧ List.Forall₂ (fun m part => sub m = .ok part) items parts ∧
        give parts = result := by
  cases found : Node.lookup? key pairs with
  | none =>
    have lacks := (Node.lookup?_eq_none_iff_lacks known).mp found
    constructor
    · intro done
      cases done
      exact ⟨[], [], .inl ⟨lacks, rfl⟩, .nil, rfl⟩
    · rintro ⟨items, parts, ⟨-, rfl⟩ | ⟨v, has, -⟩, each, rfl⟩
      · cases each
        rfl
      · rw [← Node.lookup?_eq_some_iff_has known, found] at has
        cases has
  | some v =>
    have has := (Node.lookup?_eq_some_iff_has known).mp found
    simp only [bind_eq_ok_iff, mapM_eq_ok_iff, Node.items_eq_ok_iff]
    constructor
    · rintro ⟨items, list, parts, each, ⟨⟩⟩
      exact ⟨items, parts, .inr ⟨v, has, list⟩, each, rfl⟩
    · rintro ⟨items, parts, ⟨lacks, -⟩ | ⟨w, has', list⟩, each, rfl⟩
      · rw [← Node.lookup?_eq_none_iff_lacks known, found] at lacks
        cases lacks
      · rw [← Node.lookup?_eq_some_iff_has known, found] at has'
        cases has'
        exact ⟨items, list, parts, each, rfl⟩

end Optional

end LetPoly
