import LetPoly.Proofs.Term
import Mathlib.Algebra.GroupWithZero.Nat
import Mathlib.Algebra.Order.BigOperators.Group.List
import Mathlib.Algebra.Order.Group.Nat

namespace LetPoly

namespace Ty

mutual

def tree : Ty → Term Leaf
  | .missing mark => .atom (.missing mark)
  | .cell ref => .atom (.cell ref)
  | .const decl => .node (.const decl) []
  | .app decl args => .node (.app decl) (treesOfList args)
  | .tuple elems => .node .tuple (treesOfList elems)
  | .fn params result => .node .fn (treesOfList params ++ [result.tree])
  | .record row => .node (.record (row.map Prod.fst)) (treesOfRow row)
  | .signature row => .node (.signature (row.map Prod.fst)) (treesOfRow row)

def treesOfList : List Ty → List (Term Leaf)
  | [] => []
  | t :: ts => t.tree :: treesOfList ts

def treesOfRow : List (String × Ty) → List (Term Leaf)
  | [] => []
  | (_, t) :: row => t.tree :: treesOfRow row

end

def node? : Ty → Option (Head × List Ty)
  | .missing _ | .cell _ => none
  | .const decl => some (.const decl, [])
  | .app decl args => some (.app decl, args)
  | .tuple elems => some (.tuple, elems)
  | .fn params result => some (.fn, params ++ [result])
  | .record row => some (.record (row.map Prod.fst), row.map Prod.snd)
  | .signature row => some (.signature (row.map Prod.fst), row.map Prod.snd)

theorem treesOfList_eq_map (ts : List Ty) : treesOfList ts = ts.map tree := by
  induction ts with
  | nil => rfl
  | cons t ts ih => simp [treesOfList, ih]

theorem treesOfRow_eq_map (row : Row) : treesOfRow row = (row.map Prod.snd).map tree := by
  induction row with
  | nil => rfl
  | cons field row ih => simp [treesOfRow, ih]

theorem leavesOfList_eq_flatMap (ts : List Ty) : leavesOfList ts = ts.flatMap leaves := by
  induction ts with
  | nil => rfl
  | cons t ts ih => simp [leavesOfList, ih]

theorem leavesOfRow_eq_flatMap (row : Row) :
    leavesOfRow row = (row.map Prod.snd).flatMap leaves := by
  induction row with
  | nil => rfl
  | cons field row ih => simp [leavesOfRow, ih]

theorem sizeOfList_eq_sum (ts : List Ty) : sizeOfList ts = (ts.map size).sum := by
  induction ts with
  | nil => rfl
  | cons t ts ih => simp [sizeOfList, ih]

theorem sizeOfRow_eq_sum (row : Row) : sizeOfRow row = ((row.map Prod.snd).map size).sum := by
  induction row with
  | nil => rfl
  | cons field row ih => simp [sizeOfRow, ih]

variable {t : Ty} {head : Head} {parts : List Ty}

theorem tree_of_node (top : t.node? = some (head, parts)) : t.tree = .node head (parts.map tree) := by
  cases t <;> cases top <;> simp [tree, treesOfList_eq_map, treesOfRow_eq_map]

theorem leaves_of_node (top : t.node? = some (head, parts)) : t.leaves = parts.flatMap leaves := by
  cases t <;> cases top <;> simp [leaves, leavesOfList_eq_flatMap, leavesOfRow_eq_flatMap]

theorem size_of_node (top : t.node? = some (head, parts)) : t.size = (parts.map size).sum + 1 := by
  cases t <;> cases top <;> simp [size, sizeOfList_eq_sum, sizeOfRow_eq_sum]

theorem size_lt_of_part (top : t.node? = some (head, parts)) {part : Ty} (member : part ∈ parts) :
    part.size < t.size := by
  have part_le : part.size ≤ (parts.map size).sum :=
    List.le_sum_of_mem (List.mem_map_of_mem member)
  rw [size_of_node top]
  omega

theorem leaves_part_subset (top : t.node? = some (head, parts)) {part : Ty}
    (member : part ∈ parts) : part.leaves ⊆ t.leaves := by
  intro leaf inside
  rw [leaves_of_node top]
  exact List.mem_flatMap.mpr ⟨part, member, inside⟩

theorem leaf_or_node (t : Ty) :
    (∃ leaf : Leaf, t = leaf.toTy) ∨ ∃ head parts, t.node? = some (head, parts) := by
  cases t with
  | missing mark => exact .inl ⟨.missing mark, rfl⟩
  | cell ref => exact .inl ⟨.cell ref, rfl⟩
  | const | app | tuple | fn | record | signature => exact .inr ⟨_, _, rfl⟩

/-- A property of types holds if it holds of leaves, and of a type whenever it holds of the types
    right below it. -/
@[elab_as_elim]
theorem partsInduction {motive : Ty → Prop} (leaf : ∀ leaf : Leaf, motive leaf.toTy)
    (node : ∀ t head parts, t.node? = some (head, parts) → (∀ part ∈ parts, motive part) → motive t)
    (t : Ty) : motive t := by
  induction size : t.size using Nat.strongRecOn generalizing t with
  | ind n ih =>
    rcases leaf_or_node t with ⟨l, rfl⟩ | ⟨head, parts, top⟩
    · exact leaf l
    · apply node t head parts top
      intro part member
      exact ih part.size (size ▸ size_lt_of_part top member) part rfl

@[simp] theorem tree_toTy (leaf : Leaf) : leaf.toTy.tree = .atom leaf := by
  cases leaf <;> rfl

theorem cell_mem_leaves {ref : Nat} : .cell ref ∈ (Ty.cell ref).leaves := List.mem_cons_self

@[simp] theorem leaves_toTy (leaf : Leaf) : leaf.toTy.leaves = [leaf] := by
  cases leaf <;> rfl

theorem leaves_eq_atoms (t : Ty) : t.leaves = t.tree.atoms := by
  induction t using partsInduction with
  | leaf l => simp
  | node t head parts top ih =>
    rw [leaves_of_node top, tree_of_node top, Term.atoms_node, List.flatMap_map]
    simp only [List.flatMap_def]
    rw [List.map_congr_left ih]

theorem tree_replace (f : Leaf → Ty) (t : Ty) :
    (Id.run (t.replaceM f)).tree = t.tree.bind fun leaf => (f leaf).tree := by
  refine @Ty.rec
    (fun t => (Id.run (t.replaceM f)).tree = t.tree.bind fun leaf => (f leaf).tree)
    (fun ts => (Id.run (replaceListM f ts)).map tree =
      (ts.map tree).map (·.bind fun leaf => (f leaf).tree))
    (fun row => (Id.run (replaceRowM f row)).map Prod.fst = row.map Prod.fst ∧
      ((Id.run (replaceRowM f row)).map Prod.snd).map tree =
        ((row.map Prod.snd).map tree).map (·.bind fun leaf => (f leaf).tree))
    (fun field => (Id.run (field.2.replaceM f)).tree =
      field.2.tree.bind fun leaf => (f leaf).tree)
    (fun _ => rfl) (fun _ => rfl) ?_ ?_ ?_ ?_ ?_ ?_ ?_ ?_ ?_ ?_ ?_ t
  all_goals
    simp +contextual [replaceM, replaceListM, replaceRowM, tree, treesOfList_eq_map,
      treesOfRow_eq_map]

end Ty

end LetPoly
