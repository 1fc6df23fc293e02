import LetPoly.Proofs.Canonical
import LetPoly.Proofs.Index

namespace LetPoly

def leftmost {α : Type} : List (String × α) → List (String × α)
  | [] => []
  | field :: rest => field :: (leftmost rest).filter fun other => other.1 ≠ field.1

section Fields

variable {α β : Type} {fields xs ys : List (String × α)}

theorem lookup_filter_ne {label other : String} (different : label ≠ other) :
    (fields.filter fun field => field.1 ≠ other).lookup label = fields.lookup label := by
  induction fields with
  | nil => rfl
  | cons field rest ih =>
    rw [List.filter_cons, lookup_cons_if]
    split
    · rw [lookup_cons_if, ih]
    · rename_i dropped
      have same : field.1 = other := by simpa using dropped
      rw [ih, if_neg (same ▸ different)]

theorem lookup_map_snd (f : α → β) (fields : List (String × α)) (label : String) :
    (fields.map (Prod.map id f)).lookup label = (fields.lookup label).map f := by
  induction fields with
  | nil => rfl
  | cons field rest ih =>
    rw [List.map_cons, lookup_cons_if, lookup_cons_if, ih]
    simp only [Prod.map_fst, id_eq, Prod.map_snd]
    split <;> rfl

theorem lookup_leftmost (fields : List (String × α)) (label : String) :
    (leftmost fields).lookup label = fields.lookup label := by
  induction fields with
  | nil => rfl
  | cons field rest ih =>
    rw [leftmost, lookup_cons_if, lookup_cons_if]
    split
    · rfl
    · rename_i different
      rw [lookup_filter_ne different, ih]

theorem leftmost_distinct (fields : List (String × α)) :
    ((leftmost fields).map Prod.fst).Nodup := by
  induction fields with
  | nil => exact List.nodup_nil
  | cons field rest ih =>
    rw [leftmost, List.map_cons, List.nodup_cons]
    refine ⟨?_, ih.sublist (List.filter_sublist.map _)⟩
    simp

theorem leftmost_eq_self (distinct : (fields.map Prod.fst).Nodup) : leftmost fields = fields := by
  induction fields with
  | nil => rfl
  | cons field rest ih =>
    obtain ⟨absent, distinct⟩ := List.nodup_cons.mp distinct
    rw [leftmost, ih distinct, List.filter_eq_self.mpr]
    intro other member
    have different : other.1 ≠ field.1 := by
      intro same
      exact absent (same ▸ List.mem_map_of_mem member)
    simpa using different

theorem labels_zip_sublist (labels : List String) (values : List α) :
    ((labels.zip values).map Prod.fst).Sublist labels := by
  induction labels generalizing values with
  | nil => exact List.Sublist.slnil
  | cons label labels ih =>
    cases values with
    | nil => exact List.nil_sublist _
    | cons value values => exact (ih values).cons_cons label

theorem byLabel_leftmost_eq_iff :
    byLabel (leftmost xs) = byLabel (leftmost ys) ↔
      ∀ label, xs.lookup label = ys.lookup label := by
  have found (fields : List (String × α)) (label : String) (value : α) :
      fields.lookup label = some value ↔ (label, value) ∈ leftmost fields := by
    rw [← lookup_leftmost, lookup_eq_some_iff (leftmost_distinct fields)]
  constructor
  · intro same label
    have perm : (leftmost xs).Perm (leftmost ys) :=
      (byLabel_perm _).symm.trans (same ▸ byLabel_perm _)
    refine Option.ext fun value => ?_
    rw [found, found, perm.mem_iff]
  · intro same
    have members (field : String × α) : field ∈ leftmost xs ↔ field ∈ leftmost ys := by
      rw [← found, ← found, same]
    have perm : (leftmost xs).Perm (leftmost ys) :=
      (List.perm_ext_iff_of_nodup (leftmost_distinct xs).of_map (leftmost_distinct ys).of_map).mpr
        members
    exact (byLabel_eq_iff (leftmost_distinct xs)).mpr
      ⟨perm.length_eq, fun field member => (members field).mp member⟩

end Fields

/-- Puts a head over its parts as far as they can be seen: the leftmost field of each label counts,
    and neither the order of fields nor the visibility of a name does. -/
def Head.surface {α : Type} : Head → List (Term α) → Term α
  | .record labels, args =>
    .node (.record ((byLabel (leftmost (labels.zip args))).map Prod.fst))
      ((byLabel (leftmost (labels.zip args))).map Prod.snd)
  | .signature labels, args =>
    .node (.signature ((byLabel (leftmost (labels.zip args))).map Prod.fst))
      ((byLabel (leftmost (labels.zip args))).map Prod.snd)
  | .const decl, args => .node (.const decl.plain) args
  | .app decl, args => .node (.app decl.plain) args
  | .tuple, args => .node .tuple args
  | .fn, args => .node .fn args

theorem Head.surface_ne_atom {α : Type} (head : Head) (args : List (Term α)) (a : α) :
    head.surface args ≠ .atom a := by
  cases head <;> simp [surface]

namespace Term

def surface {α : Type} (t : Term α) : Term α := t.fold .atom Head.surface

@[simp] theorem surface_atom {α : Type} (a : α) : (Term.atom a).surface = .atom a := fold_atom _ _ a

@[simp] theorem surface_node {α : Type} (head : Head) (args : List (Term α)) :
    (Term.node head args).surface = head.surface (args.map surface) := fold_node _ _ head args

end Term

end LetPoly
