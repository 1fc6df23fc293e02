import LetPoly.Proofs.Substitution
import Mathlib.Data.List.Sort

namespace LetPoly

def byLabel {α : Type} (fields : List (String × α)) : List (String × α) :=
  fields.insertionSort fun f g => f.1 ≤ g.1

section Fields

variable {α β : Type} {fields xs ys : List (String × α)}

theorem byLabel_perm (fields : List (String × α)) : (byLabel fields).Perm fields :=
  List.perm_insertionSort _ _

theorem byLabel_sorted (fields : List (String × α)) :
    (byLabel fields).Pairwise fun f g => f.1 ≤ g.1 := by
  have total : Std.Total fun f g : String × α => f.1 ≤ g.1 := ⟨fun f g => String.le_total f.1 g.1⟩
  have trans : IsTrans (String × α) fun f g => f.1 ≤ g.1 := ⟨fun _ _ _ => String.le_trans⟩
  exact List.pairwise_insertionSort _ fields

theorem eq_of_label (distinct : (fields.map Prod.fst).Nodup) {f g : String × α} (hf : f ∈ fields)
    (hg : g ∈ fields) (same : f.1 = g.1) : f = g :=
  List.inj_on_of_nodup_map distinct hf hg same

theorem byLabel_eq_iff (hx : (xs.map Prod.fst).Nodup) :
    byLabel xs = byLabel ys ↔ xs.length = ys.length ∧ ∀ f ∈ xs, f ∈ ys := by
  constructor
  · intro same
    have perm : xs.Perm ys := (byLabel_perm xs).symm.trans (same ▸ byLabel_perm ys)
    exact ⟨perm.length_eq, fun f member => perm.subset member⟩
  · rintro ⟨length, subset⟩
    have perm : xs.Perm ys :=
      (List.subperm_of_subset hx.of_map subset).perm_of_length_le length.ge
    refine List.Perm.eq_of_pairwise ?_ (byLabel_sorted xs) (byLabel_sorted ys)
      ((byLabel_perm xs).trans (perm.trans (byLabel_perm ys).symm))
    intro f g hf hg le ge
    refine eq_of_label hx ((byLabel_perm xs).subset hf) ?_ (String.le_antisymm le ge)
    exact perm.symm.subset ((byLabel_perm ys).subset hg)

theorem lookup_eq_some_iff (distinct : (fields.map Prod.fst).Nodup) {label : String} {value : α} :
    fields.lookup label = some value ↔ (label, value) ∈ fields := by
  induction fields with
  | nil => simp
  | cons field rest ih =>
    obtain ⟨other, kept⟩ := field
    simp only [List.map_cons, List.nodup_cons] at distinct
    rw [List.lookup_cons]
    by_cases same : label = other
    · subst same
      have absent : (label, value) ∉ rest := fun member =>
        distinct.1 (List.mem_map_of_mem member)
      simp only [beq_self_eq_true, Option.some.injEq, List.mem_cons, Prod.mk.injEq, true_and,
        absent, or_false]
      exact eq_comm
    · simp [beq_eq_false_iff_ne.mpr same, ih distinct.2, same]

end Fields

def DeclName.plain (decl : DeclName) : DeclName := { decl with isPublic := true }

theorem DeclName.same_iff (a b : DeclName) : a.same b = true ↔ a.plain = b.plain := by
  simp [DeclName.same, DeclName.plain, and_comm]

/-- Puts a head over its parts, with the fields of a row in order of their labels and without the
    visibility of a name. -/
def Head.arrange {α : Type} : Head → List (Term α) → Term α
  | .const decl, args => .node (.const decl.plain) args
  | .app decl, args => .node (.app decl.plain) args
  | .tuple, args => .node .tuple args
  | .fn, args => .node .fn args
  | .record labels, args =>
    .node (.record ((byLabel (labels.zip args)).map Prod.fst))
      ((byLabel (labels.zip args)).map Prod.snd)
  | .signature labels, args =>
    .node (.signature ((byLabel (labels.zip args)).map Prod.fst))
      ((byLabel (labels.zip args)).map Prod.snd)

namespace Term

mutual

def canonical {α : Type} : Term α → Term α
  | .atom a => .atom a
  | .node head args => head.arrange (canonicalAll args)

def canonicalAll {α : Type} : List (Term α) → List (Term α)
  | [] => []
  | t :: ts => t.canonical :: canonicalAll ts

end

@[simp] theorem canonical_atom {α : Type} (a : α) : (Term.atom a).canonical = .atom a := by
  simp [canonical]

@[simp] theorem canonical_node {α : Type} (head : Head) (args : List (Term α)) :
    (Term.node head args).canonical = head.arrange (args.map canonical) := by
  have all : canonicalAll args = args.map canonical := by
    induction args with
    | nil => rfl
    | cons t ts ih => simp [canonicalAll, ih]
  simp [canonical, all]

end Term

namespace Store

variable {s : Store} {θ : Substitution} {t target : Ty} {ref : Nat}

/-- The type under a substitution, up to the order of fields and up to visibility. -/
def reading (s : Store) (θ : Substitution) (t : Ty) : Term Atom := ((s.view t).subst θ).canonical

theorem reading_node {head : Head} {parts : List Ty} (top : t.node? = some (head, parts)) :
    s.reading θ t = head.arrange (parts.map (s.reading θ)) := by
  simp only [reading, Term.subst, view_node top, Term.bind_node, Term.canonical_node, List.map_map]
  rfl

theorem reading_missing (mark : Nat) : s.reading θ (.missing mark) = .atom .missing := by
  simp [reading, Term.subst, Atom.subst]

theorem reading_unbound {level : Int} (free : s.state ref = .unbound level) :
    s.reading θ (.cell ref) = (θ ref).canonical := by
  simp [reading, Term.subst, Atom.subst, view_unbound free]

theorem reading_generic (generic : s.state ref = .generic) :
    s.reading θ (.cell ref) = .atom (.rigid (s.cell ref).id) := by
  simp [reading, Term.subst, Atom.subst, view_generic generic]

theorem reading_linked (finite : s.Finite (.cell ref)) (linked : s.state ref = .linked target) :
    s.reading θ (.cell ref) = s.reading θ target := by
  simp only [reading, view_linked finite linked]

end Store

end LetPoly
