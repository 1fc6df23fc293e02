import LetPoly.Proofs.View

namespace LetPoly

def Ty.Within (size : Nat) (t : Ty) : Prop := ∀ leaf ∈ t.leaves, ∃ ref < size, leaf = .cell ref

namespace Store

variable {s s' s'' : Store} {t aim : Ty} {ref : Nat} {τ : Term Atom}

structure Extends (s s' : Store) : Prop where
  size : s.size ≤ s'.size
  cell : ∀ ref, ref < s.size → s'.cell ref = s.cell ref

theorem Extends.refl (s : Store) : s.Extends s := ⟨Nat.le_refl _, fun _ _ => rfl⟩

theorem Extends.trans (first : s.Extends s') (second : s'.Extends s'') : s.Extends s'' where
  size := Nat.le_trans first.size second.size
  cell ref inside := (second.cell ref (Nat.lt_of_lt_of_le inside first.size)).trans
    (first.cell ref inside)

theorem Extends.state (ext : s.Extends s') (inside : ref < s.size) : s'.state ref = s.state ref :=
  congrArg Cell.state (ext.cell ref inside)

theorem extends_alloc (s : Store) (id : Int) (state : VarState) : s.Extends (s.alloc id state).2 :=
  ⟨(size_alloc s id state) ▸ Nat.le_succ _, fun _ inside => cell_alloc s id state inside⟩

theorem extends_freshMissing (s : Store) : s.Extends s.freshMissing.2 :=
  ⟨Nat.le_refl _, fun _ _ => rfl⟩

theorem cell_alloc_self (s : Store) (id : Int) (state : VarState) :
    (s.alloc id state).2.cell s.size = ⟨id, state⟩ := by
  simp [cell, alloc, size]

theorem state_alloc_self (s : Store) (id : Int) (state : VarState) :
    (s.alloc id state).2.state s.size = state := by
  rw [Store.state, cell_alloc_self]

/-- Nothing is missing in the type, and its links end in cells of the store. -/
def Complete (s : Store) (t : Ty) : Prop := s.Throughout (Ty.Within s.size) t

namespace Complete

theorem ne_missing {mark : Nat} (complete : s.Complete (.missing mark)) : False := by
  obtain ⟨ref, -, same⟩ := complete.holds (.missing mark) (by simp [Ty.leaves])
  cases same

theorem inside (complete : s.Complete (.cell ref)) : ref < s.size := by
  obtain ⟨other, inside, same⟩ := complete.holds (.cell ref) (by simp [Ty.leaves])
  cases same
  exact inside

theorem target (complete : s.Complete (.cell ref)) (linked : s.state ref = .linked aim) :
    s.Complete aim :=
  complete.link (by simp [Ty.leaves]) linked

theorem reaches_inside (complete : s.Complete t) (reach : s.Reaches t ref) : ref < s.size := by
  induction reach with
  | here leaf =>
    obtain ⟨other, inside, same⟩ := complete.holds _ leaf
    cases same
    exact inside
  | through leaf linked _ ih => exact ih (complete.link leaf linked)

theorem part {head : Head} {parts : List Ty} (complete : s.Complete t)
    (top : t.node? = some (head, parts)) {part : Ty} (member : part ∈ parts) : s.Complete part :=
  Throughout.part complete top member fun leaf met =>
    complete.holds leaf (Ty.leaves_part_subset top member met)

theorem of_parts {head : Head} {parts : List Ty} (top : t.node? = some (head, parts))
    (complete : ∀ part ∈ parts, s.Complete part) : s.Complete t := by
  refine .intro (fun leaf met => ?_) fun ref target met linked => ?_
  · rw [Ty.leaves_of_node top] at met
    obtain ⟨part, member, met⟩ := List.mem_flatMap.mp met
    exact (complete part member).holds leaf met
  · rw [Ty.leaves_of_node top] at met
    obtain ⟨part, member, met⟩ := List.mem_flatMap.mp met
    exact (complete part member).link met linked

theorem of_plain (inside : ref < s.size) (plain : ∀ target, s.state ref ≠ .linked target) :
    s.Complete (.cell ref) := by
  refine .intro (fun leaf met => ?_) fun other target met linked => ?_
  · exact ⟨ref, inside, by simpa [Ty.leaves] using met⟩
  · simp only [Ty.leaves, List.mem_singleton, Leaf.cell.injEq] at met
    exact absurd (met ▸ linked) (plain target)

theorem of_link (inside : ref < s.size) (linked : s.state ref = .linked aim)
    (complete : s.Complete aim) : s.Complete (.cell ref) := by
  refine .intro (fun leaf met => ?_) fun other target met link => ?_
  · exact ⟨ref, inside, by simpa [Ty.leaves] using met⟩
  · simp only [Ty.leaves, List.mem_singleton, Leaf.cell.injEq] at met
    subst met
    rw [linked] at link
    cases link
    exact complete

theorem extend (ext : s.Extends s') (complete : s.Complete t) : s'.Complete t := by
  induction complete with
  | @intro t here below ih =>
    refine .intro (fun leaf met => ?_) fun ref target met linked => ?_
    · obtain ⟨ref, inside, same⟩ := here leaf met
      exact ⟨ref, Nat.lt_of_lt_of_le inside ext.size, same⟩
    · obtain ⟨other, inside, same⟩ := here _ met
      cases same
      exact ih ref target met (ext.state inside ▸ linked)

theorem view_extend (ext : s.Extends s') (complete : s.Complete t) : s'.view t = s.view t := by
  have finite' := (complete.extend ext).finite
  induction complete.finite using Finite.induction with
  | missing mark => rw [view_missing, view_missing]
  | plain ref _ plain =>
    have same := ext.state complete.inside
    cases state : s.state ref with
    | linked target => exact absurd state (plain target)
    | unbound level => rw [view_unbound state, view_unbound (same.trans state)]
    | generic =>
      rw [view_generic state, view_generic (same.trans state), ext.cell ref complete.inside]
  | linked ref target finite linked ih =>
    have linked' := (ext.state complete.inside).trans linked
    rw [view_linked finite linked, view_linked finite' linked',
      ih (complete.target linked) (finite'.link linked')]
  | node t head parts finite top ih =>
    rw [view_node top, view_node top]
    congr 1
    apply List.map_congr_left
    intro part member
    exact ih part member (complete.part top member) (finite'.part top member)

theorem missing_notMem (complete : s.Complete t) : .missing ∉ (s.view t).atoms := by
  induction complete.finite using Finite.induction with
  | missing mark => exact complete.ne_missing.elim
  | plain ref _ plain =>
    cases state : s.state ref with
    | linked target => exact absurd state (plain target)
    | unbound level => simp [view_unbound state]
    | generic => simp [view_generic state]
  | linked ref target finite linked ih =>
    rw [view_linked finite linked]
    exact ih (complete.target linked)
  | node t head parts finite top ih =>
    rw [view_node top]
    simp only [Term.atoms_node, List.flatMap_map, List.mem_flatMap, not_exists, not_and]
    intro part member
    exact ih part member (complete.part top member)

end Complete

/-- The type is complete and stands for the tree. -/
structure Reads (s : Store) (t : Ty) (τ : Term Atom) : Prop where
  complete : s.Complete t
  view_eq : s.view t = τ

namespace Reads

theorem extend (ext : s.Extends s') (reads : s.Reads t τ) : s'.Reads t τ :=
  ⟨reads.complete.extend ext, (reads.complete.view_extend ext).trans reads.view_eq⟩

theorem node {head : Head} {parts : List Ty} {args : List (Term Atom)}
    (top : t.node? = some (head, parts)) (reads : List.Forall₂ s.Reads parts args) :
    s.Reads t (.node head args) := by
  have each : (∀ part ∈ parts, s.Complete part) ∧ parts.map s.view = args := by
    clear top
    induction reads with
    | nil => simp
    | cons first _ ih =>
      refine ⟨List.forall_mem_cons.mpr ⟨first.complete, ih.1⟩, ?_⟩
      rw [List.map_cons, first.view_eq, ih.2]
  exact ⟨.of_parts top each.1, by rw [view_node top, each.2]⟩

theorem unbound {level : Int} (free : s.state ref = .unbound level) :
    s.Reads (.cell ref) (.atom (.var ref)) :=
  ⟨.of_plain (lt_size_of_unbound free) (by simp [free]), view_unbound free⟩

theorem generic (inside : ref < s.size) (generic : s.state ref = .generic) :
    s.Reads (.cell ref) (.atom (.rigid (s.cell ref).id)) :=
  ⟨.of_plain inside (by simp [generic]), view_generic generic⟩

theorem target (reads : s.Reads (.cell ref) τ) (linked : s.state ref = .linked aim) :
    s.Reads aim τ :=
  ⟨reads.complete.target linked, view_linked reads.complete.finite linked ▸ reads.view_eq⟩

theorem head (reads : s.Reads t τ) : s.Reads (s.head t) τ :=
  head_closed (Q := fun u => s.Reads u τ) (fun _ _ linked whole => whole.target linked) reads

theorem free (reads : s.Reads t τ) (member : .var ref ∈ τ.atoms) :
    ∃ level, s.state ref = .unbound level :=
  ((var_mem_view reads.complete.finite).mp (reads.view_eq ▸ member)).2

end Reads

end Store

end LetPoly
