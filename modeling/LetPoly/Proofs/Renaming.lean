import LetPoly.Proofs.Replacing

namespace LetPoly

namespace Ty

variable {f g : Leaf → Leaf} {t u : Ty} {head : Head} {parts parts' : List Ty}

def rename (f : Leaf → Leaf) (t : Ty) : Ty := Id.run (t.replaceM fun leaf => (f leaf).toTy)

theorem rename_missing (mark : Nat) : rename f (.missing mark) = (f (.missing mark)).toTy := rfl

theorem rename_cell (ref : Nat) : rename f (.cell ref) = (f (.cell ref)).toTy := rfl

theorem replaceListM_rename (f : Leaf → Leaf) (ts : List Ty) :
    Id.run (replaceListM (fun leaf => (f leaf).toTy) ts) = ts.map (rename f) := by
  induction ts with
  | nil => rfl
  | cons t ts ih =>
    rw [List.map_cons, ← ih]
    rfl

theorem replaceRowM_rename (f : Leaf → Leaf) (row : Row) :
    Id.run (replaceRowM (fun leaf => (f leaf).toTy) row) =
      row.map fun field => (field.1, field.2.rename f) := by
  induction row with
  | nil => rfl
  | cons field row ih =>
    rw [List.map_cons, ← ih]
    rfl

theorem rename_app (decl : DeclName) (args : List Ty) :
    rename f (.app decl args) = .app decl (args.map (rename f)) := by
  rw [← replaceListM_rename]
  rfl

theorem rename_tuple (elems : List Ty) : rename f (.tuple elems) = .tuple (elems.map (rename f)) := by
  rw [← replaceListM_rename]
  rfl

theorem rename_fn (params : List Ty) (result : Ty) :
    rename f (.fn params result) = .fn (params.map (rename f)) (result.rename f) := by
  rw [← replaceListM_rename]
  rfl

theorem rename_record (row : Row) :
    rename f (.record row) = .record (row.map fun field => (field.1, field.2.rename f)) := by
  rw [← replaceRowM_rename]
  rfl

theorem rename_signature (row : Row) :
    rename f (.signature row) = .signature (row.map fun field => (field.1, field.2.rename f)) := by
  rw [← replaceRowM_rename]
  rfl

theorem tree_rename (f : Leaf → Leaf) (t : Ty) : (t.rename f).tree = t.tree.map f := by
  rw [rename, tree_replace, Term.map]
  simp only [tree_toTy]

theorem leaves_rename (f : Leaf → Leaf) (t : Ty) : (t.rename f).leaves = t.leaves.map f := by
  rw [leaves_eq_atoms, leaves_eq_atoms, tree_rename, Term.atoms_map]

theorem replaceM_rename {m : Type → Type} [Monad m] (f : Leaf → Leaf) (g : Leaf → m Ty) (t : Ty) :
    (t.rename f).replaceM g = t.replaceM fun leaf => g (f leaf) := by
  have list : ∀ ts : List Ty,
      (∀ t ∈ ts, (t.rename f).replaceM g = t.replaceM fun leaf => g (f leaf)) →
      replaceListM g (ts.map (rename f)) = replaceListM (fun leaf => g (f leaf)) ts := by
    intro ts each
    induction ts with
    | nil => rfl
    | cons t ts ih =>
      obtain ⟨first, rest⟩ := List.forall_mem_cons.mp each
      simp only [List.map_cons, replaceListM, first, ih rest]
  have row : ∀ row : Row,
      (∀ t ∈ row.map Prod.snd, (t.rename f).replaceM g = t.replaceM fun leaf => g (f leaf)) →
      replaceRowM g (row.map fun field => (field.1, field.2.rename f)) =
        replaceRowM (fun leaf => g (f leaf)) row := by
    intro row each
    induction row with
    | nil => rfl
    | cons field row ih =>
      obtain ⟨first, rest⟩ := List.forall_mem_cons.mp each
      simp only [List.map_cons, replaceRowM, first, ih rest]
  induction t using partsInduction with
  | leaf leaf =>
    have toTy : ∀ leaf : Leaf, leaf.toTy.replaceM g = g leaf := fun leaf => by cases leaf <;> rfl
    cases leaf with
    | missing mark => rw [Leaf.toTy, rename_missing, toTy, replaceM]
    | cell ref => rw [Leaf.toTy, rename_cell, toTy, replaceM]
  | node t head parts top ih =>
    cases t with
    | missing | cell => cases top
    | const => rfl
    | app =>
      cases top
      rw [rename_app, replaceM, replaceM, list _ ih]
    | tuple =>
      cases top
      rw [rename_tuple, replaceM, replaceM, list _ ih]
    | fn params result =>
      cases top
      obtain ⟨eachParam, eachResult⟩ := List.forall_mem_append.mp ih
      rw [rename_fn, replaceM, replaceM, list _ eachParam, eachResult result (by simp)]
    | record =>
      cases top
      rw [rename_record, replaceM, replaceM, row _ ih]
    | signature =>
      cases top
      rw [rename_signature, replaceM, replaceM, row _ ih]

theorem rename_congr (same : ∀ leaf ∈ t.leaves, f leaf = g leaf) : t.rename f = t.rename g :=
  replaceM_related (m := Id) (n := Id) (P := fun x y => x = y) (fun _ => rfl)
    (fun first second => by rw [first, funext second]) fun leaf met => by rw [same leaf met]

theorem rename_node (top : t.node? = some (head, parts)) (top' : u.node? = some (head, parts'))
    (same : parts.map (rename f) = parts'.map (rename g)) : t.rename f = u.rename g := by
  have rows : ∀ {row row' : Row}, row.map Prod.fst = row'.map Prod.fst →
      (row.map Prod.snd).map (rename f) = (row'.map Prod.snd).map (rename g) →
      (row.map fun field => (field.1, field.2.rename f)) =
        row'.map fun field => (field.1, field.2.rename g) := by
    intro row row' labels types
    induction row generalizing row' with
    | nil =>
      cases row' with
      | nil => rfl
      | cons => cases labels
    | cons field row ih =>
      cases row' with
      | nil => cases labels
      | cons field' row' =>
        simp only [List.map_cons, List.cons.injEq] at labels types ⊢
        exact ⟨Prod.ext labels.1 types.1, ih labels.2 types.2⟩
  cases t with
  | missing | cell => cases top
  | const =>
    cases top
    cases u with
    | const => cases top'; rfl
    | _ => cases top'
  | app =>
    cases top
    cases u with
    | app =>
      cases top'
      rw [rename_app, rename_app, same]
    | _ => cases top'
  | tuple =>
    cases top
    cases u with
    | tuple =>
      cases top'
      rw [rename_tuple, rename_tuple, same]
    | _ => cases top'
  | fn params result =>
    cases top
    cases u with
    | fn params' result' =>
      cases top'
      simp only [List.map_append, List.map_cons, List.map_nil] at same
      obtain ⟨each, last⟩ := List.append_inj' same rfl
      rw [rename_fn, rename_fn, each, List.singleton_inj.mp last]
    | _ => cases top'
  | record row =>
    cases top
    cases u with
    | record row' =>
      rw [node?, Option.some.injEq, Prod.mk.injEq, Head.record.injEq] at top'
      obtain ⟨labels, rfl⟩ := top'
      rw [rename_record, rename_record, rows labels.symm same]
    | _ => cases top'
  | signature row =>
    cases top
    cases u with
    | signature row' =>
      rw [node?, Option.some.injEq, Prod.mk.injEq, Head.signature.injEq] at top'
      obtain ⟨labels, rfl⟩ := top'
      rw [rename_signature, rename_signature, rows labels.symm same]
    | _ => cases top'

end Ty

end LetPoly
