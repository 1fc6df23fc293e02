import LetPoly.Proofs.Batch.Copies
import LetPoly.Proofs.Lists
import LetPoly.Proofs.Printing.Outline
import Mathlib.Data.Finset.Image
import Mathlib.Order.Interval.Finset.Nat

namespace LetPoly

/-- The second type is seen in its store as the first is in its own, but with other numbers. -/
def Store.Renumbered (s s' : Store) (κ : Int → Int) (t t' : Ty) : Prop :=
  s'.shown t' = (s.shown t).map (Shown.renumber κ)

namespace Store

variable {s s' : Store} {t t' : Ty} {κ : Int → Int}

theorem outline_renumbered (seen : s.Renumbered s' κ t t') :
    s'.outline t' = (s.outline t).renumber κ := by
  rw [outline, seen, Term.map_map, outline, Term.renumber, ← Term.bare_map, Term.map_map]
  simp only [Shown.id?_renumber]

theorem showType_renumbered (finite : s.Finite t) (finite' : s'.Finite t')
    (injective : Function.Injective κ) (seen : s.Renumbered s' κ t t') (width : Int)
    (names : VarNames) :
    s'.showType width t' (names.renumber κ) =
      ((s.showType width t names).1, (s.showType width t names).2.renumber κ) := by
  rw [showType_eq finite, showType_eq finite', outline_renumbered seen, Term.ids_renumber,
    VarNames.see_renumber injective.injOn, Term.docIn_renumber]
  exact fun id _ other _ same => injective same

end Store

namespace Expr

variable {P : Ty → Ty → Prop} {e e' : Expr} {s s' : Store} {t : Ty}

def written? : Expr → Option Ty
  | .var _ _ _ type | .fn _ _ _ type | .letIn _ _ _ _ type | .nil _ type => some type
  | _ => none

/-- The types that an inferred tree tells: those of its nodes, and those written into them. -/
def told (s : Store) (e : Expr) : List Ty :=
  e.nodes.flatMap fun node => (node.typeIn s).toOption.toList ++ node.written?.toList

theorem mem_told : t ∈ e.told s ↔
    ∃ node ∈ e.nodes, node.typeIn s = .ok t ∨ node.written? = some t := by
  have known : ∀ r : Except Fault Ty, t ∈ r.toOption.toList ↔ r = .ok t := by
    rintro (f | u)
    · simp [Except.toOption]
    · simp [Except.toOption, eq_comm]
  simp only [told, List.mem_flatMap, List.mem_append, known, Option.mem_toList]

namespace Alike

theorem pos_eq (alike : e.Alike P e') : e'.pos = e.pos := by cases alike <;> rfl

theorem form_eq (alike : e.Alike P e') : e'.form = e.form := by cases alike <;> rfl

theorem nodes (alike : e.Alike P e') : List.Forall₂ (Alike P) e.nodes e'.nodes := by
  induction alike with
  | @literal e name literal =>
    have single : e.nodes = [e] := by cases e <;> cases literal <;> rfl
    rw [single]
    exact .cons (.literal literal) .nil
  | seq ofFirst ofBody ihFirst ihBody =>
    simp only [Expr.nodes]
    exact .cons (.seq ofFirst ofBody) (List.rel_append ihFirst ihBody)
  | var type => exact .cons (.var type) .nil
  | fn ofBody type ih =>
    simp only [Expr.nodes]
    exact .cons (.fn ofBody type) ih
  | letIn ofValue ofBody type ihValue ihBody =>
    simp only [Expr.nodes]
    exact .cons (.letIn ofValue ofBody type) (List.rel_append ihValue ihBody)
  | nil type => exact .cons (.nil type) .nil

theorem written? (alike : e.Alike P e') : List.Forall₂ P e.written?.toList e'.written?.toList := by
  cases alike with
  | literal literal => cases e <;> cases literal <;> exact .nil
  | seq => exact .nil
  | var type | fn _ type | letIn _ _ type | nil type => exact .cons type .nil

theorem and_written {Q : Ty → Prop} (alike : e.Alike P e')
    (all : ∀ node ∈ e'.nodes, ∀ t, node.written? = some t → Q t) :
    e.Alike (fun t t' => P t t' ∧ Q t') e' := by
  induction alike with
  | literal literal => exact .literal literal
  | seq _ _ ihFirst ihBody =>
    simp only [Expr.nodes, List.forall_mem_cons, List.forall_mem_append] at all
    exact .seq (ihFirst all.2.1) (ihBody all.2.2)
  | var type => exact .var ⟨type, all _ List.mem_cons_self _ rfl⟩
  | fn _ type ih =>
    simp only [Expr.nodes, List.forall_mem_cons] at all
    exact .fn (ih all.2) ⟨type, all.1 _ rfl⟩
  | letIn _ _ type ihValue ihBody =>
    simp only [Expr.nodes, List.forall_mem_cons, List.forall_mem_append] at all
    exact .letIn (ihValue all.2.1) (ihBody all.2.2) ⟨type, all.1 _ rfl⟩
  | nil type => exact .nil ⟨type, all _ List.mem_cons_self _ rfl⟩

theorem typeIn_eq (alike : e.Alike (fun _ t => s'.head t = s.head t) e') :
    e'.typeIn s' = e'.typeIn s := by
  induction alike with
  | @literal e _ literal => cases e <;> cases literal <;> rfl
  | seq _ _ _ ih => exact ih
  | var type => exact congrArg Except.ok type
  | fn => rfl
  | letIn _ _ _ _ ih => exact ih
  | nil type => exact congrArg Except.ok type

end Alike

structure Renumbered (s s' : Store) (κ : Int → Int) (e e' : Expr) : Prop where
  written : e.Alike (s.Renumbered s' κ) e'
  nodes : List.Forall₂ (fun node node' => ∃ t t', node.typeIn s = .ok t ∧ node'.typeIn s' = .ok t' ∧
    s.Renumbered s' κ t t') e.nodes e'.nodes

end Expr

theorem Bindings.Alike.names_eq {P : Ty → Ty → Prop} {env env' : Bindings}
    (alike : Bindings.Alike P env env') : env'.names = env.names := by
  obtain ⟨entries⟩ := env
  obtain ⟨entries'⟩ := env'
  change List.Forall₂ _ entries entries' at alike
  simp only [Index.names]
  induction alike with
  | nil => rfl
  | cons first _ ih => rw [List.map_cons, List.map_cons, first.1, ih]

theorem InferError.Alike.message_eq {P : Ty → Ty → Prop} {error error' : InferError}
    (alike : error.Alike P error') : error'.message = error.message := by
  cases alike with
  | same => rfl
  | @unknownVariable pos name visible visible' alike =>
    simp only [message, alike.names_eq]

def Store.numbersSince (s s' : Store) : Finset Int :=
  (Finset.Ico s.size s'.size).image fun ref => (s'.cell ref).id

namespace Mirror

variable {m : Mirror} {p : Supply} {s s' : Store} {t t' : Ty} {e e' : Expr} {id : Int} {n N : Nat}

theorem typeIn_nodes (facing : m.Facing s s' m.number (m.OwnLeaf N))
    (alike : e.Alike (m.Own N) e') :
    List.Forall₂ (fun node node' => ∃ t t', node.typeIn s = .ok t ∧ node'.typeIn s' = .ok t' ∧
      m.Own N t t') e.nodes e'.nodes :=
  alike.nodes.imp fun _ _ => typeIn_alike facing

theorem told_alike (facing : m.Facing s s' m.number (m.OwnLeaf N)) (alike : e.Alike (m.Own N) e') :
    List.Forall₂ (m.Own N) (e.told s) (e'.told s') := by
  refine List.rel_flatMap alike.nodes fun node node' alike => ?_
  obtain ⟨t, t', known, known', own⟩ := typeIn_alike facing alike
  rw [known, known']
  exact List.rel_append (.cons own .nil) alike.written?

theorem Lies.new_of_plain {ref : Nat} (lies : m.Lies s s') (own : m.OwnLeaf N (.cell ref))
    (plain : ∀ target, s.state ref ≠ .linked target) : m.size ≤ ref ∧ ref < N := by
  refine own.resolve_right fun settled => ?_
  obtain ⟨target, linked⟩ := settled.holds _ Ty.cell_mem_leaves
  exact plain target ((settled.same lies.grown).state Ty.cell_mem_leaves ▸ linked)

theorem Lies.made_of_shown (lies : m.Lies s s') (own : ∀ leaf ∈ t.leaves, m.OwnLeaf s.size leaf)
    {a : Shown} (seen : a ∈ (s.shown t).atoms) (number : a.id? = some id) : m.Made s id := by
  have facing := lies.own_facing (Nat.le_refl s.size)
  have passes : ∀ {u : Ty}, a ∈ (s.shown u).atoms ↔
      ∃ leaf ∈ u.leaves, a ∈ (s.shown leaf.toTy).atoms := by
    intro u
    rw [Store.shown_eq_bind, Term.mem_atoms_bind, ← Ty.leaves_eq_atoms]
  have leaf : ∀ leaf, m.OwnLeaf s.size leaf → a ∈ (s.shown leaf.toTy).atoms → m.Made s id := by
    refine facing.induction ?_ ?_ ?_
    · intro mark _ seen
      rw [Leaf.toTy, Store.shown_missing, Term.atoms_atom, List.mem_singleton] at seen
      subst seen
      cases number
    · intro ref here plain seen
      have new := lies.new_of_plain here plain
      refine ⟨ref, new.1, new.2, ?_⟩
      cases state : s.state ref with
      | linked target => exact absurd state (plain target)
      | unbound level =>
        rw [Leaf.toTy, Store.shown_unbound state, Term.atoms_atom, List.mem_singleton] at seen
        subst seen
        exact Option.some.inj number
      | generic =>
        rw [Leaf.toTy, Store.shown_generic state, Term.atoms_atom, List.mem_singleton] at seen
        subst seen
        exact Option.some.inj number
    · intro ref target here linked ih seen
      rw [Leaf.toTy, Store.shown_linked (facing.finite ref here) linked, passes] at seen
      obtain ⟨leaf, met, seen⟩ := seen
      exact ih leaf met seen
  obtain ⟨first, met, seen⟩ := passes.mp seen
  exact leaf first (own first met) seen

theorem Drawn.le_card (drawn : m.Drawn p n) :
    min n wordCount ≤ (m.start.store.numbersSince p.store).card := by
  let draw := fun j : Nat => wrap64 (m.start.nextId + j)
  -- numbers come around only after all words have been drawn
  have distinct : Set.InjOn draw (Finset.range (min n wordCount)) := by
    intro j less k less' same
    simp only [Finset.coe_range, Set.mem_Iio, lt_min_iff] at less less'
    have rest := congrArg (· % (wordCount : Int)) same
    simp only [draw, wrap64, Int.bmod_emod, wordCount] at rest less less'
    omega
  have subset : (Finset.range (min n wordCount)).image draw ⊆ m.start.store.numbersSince p.store := by
    intro id member
    obtain ⟨j, less, rfl⟩ := Finset.mem_image.mp member
    obtain ⟨ref, new, inside, number⟩ :=
      (drawn.made _).mpr ⟨j, (lt_min_iff.mp (Finset.mem_range.mp less)).1, rfl⟩
    exact Finset.mem_image.mpr ⟨ref, Finset.mem_Ico.mpr ⟨new, inside⟩, number⟩
  calc min n wordCount
    _ = (Finset.range (min n wordCount)).card := (Finset.card_range _).symm
    _ = ((Finset.range (min n wordCount)).image draw).card := (Finset.card_image_of_injOn distinct).symm
    _ ≤ (m.start.store.numbersSince p.store).card := Finset.card_le_card subset

end Mirror

end LetPoly
