import LetPoly.Proofs.Links

namespace LetPoly

/-- What ends a type once its links are followed: an unbound variable is its cell, and a generic one
    is rigid and known by its number. -/
inductive Atom
  | missing
  | var (ref : Nat)
  | rigid (id : Int)
deriving DecidableEq, Repr

namespace Store

variable {s : Store} {t target : Ty} {ref : Nat} {n m : Nat}

def atomOf (s : Store) : Leaf → Atom
  | .missing _ => .missing
  | .cell ref =>
    match s.state ref with
    | .generic => .rigid (s.cell ref).id
    | _ => .var ref

def view (s : Store) (t : Ty) : Term Atom :=
  (s.resolve t).tree.bind fun leaf => .atom (s.atomOf leaf)

def resolveLeaf (s : Store) (n : Nat) : Leaf → Ty
  | .missing mark => .missing mark
  | .cell ref =>
    match s.state ref with
    | .linked target => s.resolveWithin n target
    | _ => .cell ref

theorem tree_resolveWithin (s : Store) (n : Nat) (t : Ty) :
    (s.resolveWithin (n + 1) t).tree = t.tree.bind fun leaf => (s.resolveLeaf n leaf).tree :=
  Ty.tree_replace (s.resolveLeaf n) t

theorem tree_resolveWithin_eq (shallow : s.Shallow n t) (enough : n < m) :
    (s.resolveWithin m t).tree = (s.resolveWithin (n + 1) t).tree := by
  induction m generalizing n t with
  | zero => omega
  | succ m ih =>
    rw [tree_resolveWithin, tree_resolveWithin]
    apply Term.bind_congr
    intro leaf member
    rw [← Ty.leaves_eq_atoms] at member
    cases leaf with
    | missing mark => rfl
    | cell ref =>
      cases state : s.state ref with
      | linked target =>
        obtain ⟨n, rfl, below⟩ := shallow.link member state
        simp only [resolveLeaf, state]
        exact ih below (by omega)
      | unbound level => simp [resolveLeaf, state]
      | generic => simp [resolveLeaf, state]

theorem view_eq_bind (s : Store) (t : Ty) : s.view t = t.tree.bind fun leaf => s.view leaf.toTy := by
  simp only [view, resolve, depth, tree_resolveWithin, Term.bind_bind, Ty.tree_toTy, Term.bind_atom]

theorem view_node {head : Head} {parts : List Ty} (top : t.node? = some (head, parts)) :
    s.view t = .node head (parts.map s.view) := by
  rw [view_eq_bind, Ty.tree_of_node top, Term.bind_node, List.map_map]
  simp only [Term.node.injEq, true_and]
  apply List.map_congr_left
  intro part _
  exact (s.view_eq_bind part).symm

@[simp] theorem view_missing (mark : Nat) : s.view (.missing mark) = .atom .missing := by
  simp [view, resolve, depth, tree_resolveWithin, Ty.tree, resolveLeaf, atomOf]

theorem view_unbound {level : Int} (free : s.state ref = .unbound level) :
    s.view (.cell ref) = .atom (.var ref) := by
  simp [view, resolve, depth, tree_resolveWithin, Ty.tree, resolveLeaf, atomOf, free]

theorem view_generic (generic : s.state ref = .generic) :
    s.view (.cell ref) = .atom (.rigid (s.cell ref).id) := by
  simp [view, resolve, depth, tree_resolveWithin, Ty.tree, resolveLeaf, atomOf, generic]

theorem view_linked (finite : s.Finite (.cell ref)) (linked : s.state ref = .linked target) :
    s.view (.cell ref) = s.view target := by
  have inside := lt_size_of_linked linked
  obtain ⟨n, count⟩ : ∃ n, s.size = n + 1 := ⟨s.size - 1, by omega⟩
  have shallow : s.Shallow (n + 1) (.cell ref) := count ▸ finite.shallow
  have below : s.Shallow n target := shallow ref target (by simp [Ty.leaves]) linked
  have enough := tree_resolveWithin_eq below (show n < s.size + 1 by omega)
  have step : (s.resolveWithin (s.size + 1) (.cell ref)).tree =
      (s.resolveWithin (n + 1) target).tree := by
    rw [tree_resolveWithin, ← count]
    simp only [Ty.tree, Term.bind_atom, resolveLeaf, linked]
  simp only [view, resolve, depth, step, enough]

theorem var_mem_view (finite : s.Finite t) :
    .var ref ∈ (s.view t).atoms ↔ s.Reaches t ref ∧ ∃ level, s.state ref = .unbound level := by
  induction finite using Finite.induction with
  | missing mark =>
    simp only [view_missing, Term.atoms_atom, List.mem_singleton, reduceCtorEq, false_iff]
    rintro ⟨reach, -⟩
    cases reach with
    | here leaf => simp [Ty.leaves] at leaf
    | through leaf => simp [Ty.leaves] at leaf
  | plain other finite plain =>
    rw [reaches_plain plain]
    cases state : s.state other with
    | linked target => exact absurd state (plain target)
    | unbound level =>
      rw [view_unbound state]
      simp only [Term.atoms_atom, List.mem_singleton, Atom.var.injEq]
      constructor
      · rintro rfl
        exact ⟨rfl, level, state⟩
      · exact And.left
    | generic =>
      rw [view_generic state]
      simp only [Term.atoms_atom, List.mem_singleton, reduceCtorEq, false_iff]
      rintro ⟨rfl, level, free⟩
      simp [state] at free
  | linked other target finite linked ih =>
    rw [view_linked finite linked, ih, reaches_linked linked]
    constructor
    · rintro ⟨reach, free⟩
      exact ⟨.inr reach, free⟩
    · rintro ⟨rfl | reach, level, free⟩
      · simp [linked] at free
      · exact ⟨reach, level, free⟩
  | node t head parts finite top ih =>
    rw [view_node top, reaches_node top]
    simp only [Term.atoms_node, List.flatMap_map, List.mem_flatMap]
    constructor
    · rintro ⟨part, member, inside⟩
      obtain ⟨reach, free⟩ := (ih part member).mp inside
      exact ⟨⟨part, member, reach⟩, free⟩
    · rintro ⟨⟨part, member, reach⟩, free⟩
      exact ⟨part, member, (ih part member).mpr ⟨reach, free⟩⟩

end Store

end LetPoly
