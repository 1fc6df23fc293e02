import LetPoly.Proofs.Inference.Task
import LetPoly.Proofs.Workspace.Draws
import Mathlib.Data.Finset.Dedup
import Mathlib.Data.Int.Interval
import Mathlib.Order.Interval.Finset.Nat

namespace LetPoly

namespace Store

variable {s : Store} {t : Ty} {a : Atom} {level id : Int} {φ : Int → Term Atom} {τ : Term Atom}

/-- The number of a variable that does not outlive being made generic at the level and opened again:
    a generic one, or an unbound one that is deeper. -/
def renewed (s : Store) (level : Int) : Atom → Option Int
  | .missing => none
  | .rigid id => some id
  | .var ref =>
    match s.state ref with
    | .unbound own => if level < own then some (s.cell ref).id else none
    | _ => none

def renewedIds (s : Store) (level : Int) (t : Ty) : Finset Int :=
  ((s.view t).atoms.filterMap (s.renewed level)).toFinset

def renew (s : Store) (level : Int) (φ : Int → Term Atom) (a : Atom) : Term Atom :=
  match s.renewed level a with
  | some id => φ id
  | none => .atom a

theorem mem_renewedIds :
    id ∈ s.renewedIds level t ↔ ∃ a ∈ (s.view t).atoms, s.renewed level a = some id := by
  rw [renewedIds, List.mem_toFinset, List.mem_filterMap]

theorem closing_eq_renew (s : Store) (level : Int) (a : Atom) :
    a.subst (s.closing level) = s.renew level (fun id => .atom (.rigid id)) a := by
  cases a with
  | missing | rigid => rfl
  | var ref =>
    cases state : s.state ref with
    | generic | linked => simp only [Atom.subst, closing, renew, renewed, state]
    | unbound own =>
      by_cases deep : level < own
      · simp only [Atom.subst, closing, renew, renewed, state, deep, if_true]
      · simp only [Atom.subst, closing, renew, renewed, state, deep, if_false]

theorem renewed_eq_none (s : Store) (level : Int) (a : Atom) (none : s.renewed level a = none) :
    a.instantiate φ = .atom a := by
  cases a with
  | rigid id => cases none
  | missing | var => rfl

theorem instantiate_closing :
    (τ.subst (s.closing level)).instantiate φ = τ.bind (s.renew level φ) := by
  rw [Term.subst, Term.instantiate, Term.bind_bind]
  apply Term.bind_congr
  intro a _
  rw [closing_eq_renew]
  cases found : s.renewed level a with
  | some id => simp only [renew, found, Term.bind_atom, Atom.instantiate]
  | none => simp only [renew, found, Term.bind_atom, renewed_eq_none s level a found]

theorem rigid_mem_closing :
    .rigid id ∈ ((s.view t).subst (s.closing level)).atoms ↔ id ∈ s.renewedIds level t := by
  rw [mem_renewedIds, Term.subst, Term.mem_atoms_bind]
  apply exists_congr
  intro a
  apply and_congr_right
  intro _
  rw [closing_eq_renew]
  cases found : s.renewed level a with
  | some other => simp [renew, found, eq_comm]
  | none =>
    simp only [renew, found, Term.atoms_atom, List.mem_singleton, reduceCtorEq, iff_false]
    rintro rfl
    cases found

theorem mem_renewedIds_of_shallow
    (shallow : ∀ ref own, .var ref ∈ (s.view t).atoms → s.state ref = .unbound own → own ≤ level) :
    id ∈ s.renewedIds level t ↔ .rigid id ∈ (s.view t).atoms := by
  rw [mem_renewedIds]
  constructor
  · intro found
    obtain ⟨a, member, same⟩ := found
    cases a with
    | missing => cases same
    | rigid other =>
      cases same
      exact member
    | var ref =>
      simp only [renewed] at same
      split at same
      · rename_i own state
        rw [if_neg (Int.not_lt.mpr (shallow ref own member state))] at same
        cases same
      · cases same
  · intro member
    exact ⟨.rigid id, member, rfl⟩

theorem rigid_not_mem_renew {name : Int → Nat} :
    .rigid id ∉ (τ.bind (s.renew level fun id => .atom (.var (name id)))).atoms := by
  rw [Term.mem_atoms_bind]
  rintro ⟨a, -, met⟩
  cases found : s.renewed level a with
  | some other => simp [renew, found] at met
  | none =>
    simp only [renew, found, Term.atoms_atom, List.mem_singleton] at met
    rw [← met] at found
    cases found

theorem not_isGeneric (complete : s.Complete t) (none : ∀ id, .rigid id ∉ (s.view t).atoms) :
    s.isGeneric t = .ok false := by
  obtain ⟨b, asked, generic⟩ := isGeneric_spec complete
  cases b with
  | false => exact asked
  | true =>
    obtain ⟨id, member⟩ := generic.mp rfl
    exact absurd member (none id)

end Store

namespace Supply

variable {p q : Supply} {t u : Ty} {level low : Int} {name : Int → Nat} {ids : Finset Int}

theorem id_of_madeSince (draws : Draws p (p.madeSince q) q) {k : Nat}
    (small : k < q.store.size - p.store.size) :
    (q.store.cell (p.store.size + k)).id = wrap64 (p.nextId + k) := by
  have same := congrArg (·[k]?) draws.consecutive.ids
  simpa [madeSince, small] using same

namespace Opens

theorem bijOn (opens : p.Opens level t name u q)
    (numbers : ∀ id, id ∈ ids ↔ .rigid id ∈ (p.store.view t).atoms) :
    Set.BijOn name ids (Set.Ico p.store.size q.store.size) := by
  have same : (ids : Set Int) = {id | .rigid id ∈ (p.store.view t).atoms} := Set.ext numbers
  rw [same]
  exact opens.bijective

theorem card (opens : p.Opens level t name u q)
    (numbers : ∀ id, id ∈ ids ↔ .rigid id ∈ (p.store.view t).atoms) :
    ids.card = q.store.size - p.store.size := by
  have bijective := opens.bijOn numbers
  have image : ids.image name = Finset.Ico p.store.size q.store.size := by
    apply Finset.coe_injective
    rw [Finset.coe_image, Finset.coe_Ico]
    exact bijective.image_eq
  rw [← Nat.card_Ico, ← image, Finset.card_image_of_injOn bijective.injOn]

/-- The variables of an instance have different numbers. A counter that wraps does not come around,
    since there are no more generic numbers than words. -/
theorem id_injOn (opens : p.Opens level t name u q) (draws : Draws p (p.madeSince q) q)
    (numbers : ∀ id, id ∈ ids ↔ .rigid id ∈ (p.store.view t).atoms) (words : ∀ id ∈ ids, IsWord id) :
    Set.InjOn (fun id => (q.store.cell (name id)).id) {id | .rigid id ∈ (p.store.view t).atoms} := by
  have few : ids.card ≤ wordCount := by
    have inside : ids ⊆ Finset.Ico (-(wordLimit : Int)) wordLimit :=
      fun id member => Finset.mem_Ico.mpr (words id member)
    have bound := Finset.card_le_card inside
    rw [Int.card_Ico] at bound
    exact bound
  have length : (p.madeSince q).length = ids.card := by
    rw [opens.card numbers, madeSince, List.length_range']
  have nodup := draws.consecutive.nodup (length ▸ few)
  have drawn : ∀ id, .rigid id ∈ (p.store.view t).atoms → name id ∈ p.madeSince q := by
    intro id member
    obtain ⟨new, inside⟩ := opens.bijective.mapsTo member
    rw [madeSince, List.mem_range'_1]
    omega
  intro id member id' member' same
  have refs := List.inj_on_of_nodup_map nodup (drawn id member) (drawn id' member') same
  exact opens.bijective.injOn member member' refs

theorem generalize (opens : p.Opens level t name u q)
    (unmarked : level ≠ genericLevel ∧ level ≠ linkLevel) (complete : p.store.Complete t)
    (shallow : ∀ ref own, .var ref ∈ (p.store.view t).atoms → p.store.state ref = .unbound own →
      own ≤ low) (deeper : low < level) :
    (q.store.generalize low u).2.Reads (q.store.generalize low u).1
      ((p.store.view t).instantiate fun id => .atom (.rigid (q.store.cell (name id)).id)) := by
  have reads := opens.reads_unbound unmarked
  obtain ⟨-, closed⟩ := Store.generalize_spec low reads.complete
  have same : (q.store.view u).subst (q.store.closing low) =
      (p.store.view t).instantiate fun id => .atom (.rigid (q.store.cell (name id)).id) := by
    rw [reads.view_eq, Term.subst, Term.instantiate, Term.bind_bind, Term.instantiate]
    apply Term.bind_congr
    intro a member
    cases a with
    | missing => rfl
    | rigid id =>
      exact Store.closing_of_lt (opens.unbound unmarked id member) deeper
    | var ref =>
      obtain ⟨-, own, free⟩ := (Store.var_mem_view complete.finite).mp member
      have kept := (opens.grown.state (Store.lt_size_of_unbound free)).trans free
      exact Store.closing_of_le kept (shallow ref own member free)
  rwa [same] at closed

end Opens

end Supply

open Store in
/-- Making a type generic and opening it again renews its variables, and the other way round. Opening
    what was made generic at a level puts a fresh unbound variable in the place of each generic one
    and of each unbound one that is deeper, one for each number. The others stay the cells they were,
    nothing is generic any more, and the counter has gone on by as many steps as there are numbers.
    Where no unbound variable is deeper, making an instance generic again gives the type with other
    numbers for its generic variables. -/
theorem generalize_instantiate_inverse {p : Supply} {t : Ty} {level : Int} (low : Int)
    (complete : p.store.Complete t) (word : IsWord p.nextId)
    (unmarked : level ≠ genericLevel ∧ level ≠ linkLevel) :
    (let scheme := p.store.generalize low t
      let ids := p.store.renewedIds low t
      ∃ (name : Int → Nat) (u : Ty) (q : Supply),
        Supply.instantiate ⟨scheme.2, p.nextId⟩ level scheme.1 = (.ok u, q) ∧
        p.store.Extends q.store ∧
        q.store.Reads u ((p.store.view t).bind (p.store.renew low fun id => .atom (.var (name id)))) ∧
        Set.BijOn name ids (Set.Ico scheme.2.size q.store.size) ∧
        (∀ id ∈ ids, q.store.state (name id) = .unbound level) ∧
        q.store.isGeneric u = .ok false ∧
        q.nextId = wrap64 (p.nextId + ids.card) ∧
        ∀ k < ids.card, (q.store.cell (scheme.2.size + k)).id = wrap64 (p.nextId + k)) ∧
    ((∀ ref own, .var ref ∈ (p.store.view t).atoms → p.store.state ref = .unbound own → own ≤ low) →
      low < level → (∀ id, .rigid id ∈ (p.store.view t).atoms → IsWord id) →
      ∃ u q, p.instantiate level t = (.ok u, q) ∧
        let scheme := q.store.generalize low u
        ∃ number : Int → Int, Set.InjOn number {id | .rigid id ∈ (p.store.view t).atoms} ∧
          scheme.2.Reads scheme.1
            ((p.store.view t).instantiate fun id => .atom (.rigid (number id)))) := by
  constructor
  · intro scheme ids
    obtain ⟨grown, closed⟩ := generalize_spec low complete
    let start : Supply := ⟨scheme.2, p.nextId⟩
    obtain ⟨name, u, q, run, opens⟩ :=
      Supply.instantiate_opens (p := start) unmarked.2 closed.complete
    have numbers : ∀ id, id ∈ ids ↔ .rigid id ∈ (start.store.view scheme.1).atoms := by
      intro id
      rw [closed.view_eq, rigid_mem_closing]
    have draws := start.instantiate_drawsAll level scheme.1 word
    rw [run] at draws
    have card := opens.card numbers
    have reads := opens.reads_unbound unmarked
    rw [closed.view_eq, instantiate_closing] at reads
    refine ⟨name, u, q, run, grown.trans opens.grown, reads, opens.bijOn numbers, ?_, ?_, ?_, ?_⟩
    · intro id member
      exact opens.unbound unmarked id ((numbers id).mp member)
    · apply not_isGeneric reads.complete
      rw [reads.view_eq]
      exact fun id => rigid_not_mem_renew
    · rw [draws.consecutive.next, Supply.madeSince, List.length_range', card]
    · intro k small
      exact Supply.id_of_madeSince draws (card ▸ small)
  · intro shallow deeper words
    obtain ⟨name, u, q, run, opens⟩ := Supply.instantiate_opens unmarked.2 complete
    have draws := p.instantiate_drawsAll level t word
    rw [run] at draws
    have numbers : ∀ id, id ∈ p.store.renewedIds low t ↔ .rigid id ∈ (p.store.view t).atoms :=
      fun id => mem_renewedIds_of_shallow shallow
    refine ⟨u, q, run, fun id => (q.store.cell (name id)).id, ?_, ?_⟩
    · exact opens.id_injOn draws numbers fun id member => words id ((numbers id).mp member)
    · exact opens.generalize unmarked complete shallow deeper

def mixedSupply : Supply :=
  ⟨{ cells := #[⟨1, .unbound 1⟩, ⟨2, .unbound 5⟩, ⟨3, .generic⟩, ⟨4, .linked (.list (.cell 1))⟩] }, 9⟩

theorem mixedSupply_complete :
    mixedSupply.store.Complete (.fn [.cell 0, .cell 1, .cell 2] (.cell 3)) ∧
      mixedSupply.store.Complete (.fn [.cell 0, .cell 2] (.list (.cell 2))) := by
  have shallow : mixedSupply.store.Complete (.cell 0) :=
    .of_plain (by decide) fun target linked => by cases linked
  have deep : mixedSupply.store.Complete (.cell 1) :=
    .of_plain (by decide) fun target linked => by cases linked
  have generic : mixedSupply.store.Complete (.cell 2) :=
    .of_plain (by decide) fun target linked => by cases linked
  have list : mixedSupply.store.Complete (.cell 3) :=
    .of_link (by decide) rfl (.of_parts rfl (List.forall_mem_singleton.mpr deep))
  have lists : mixedSupply.store.Complete (.list (.cell 2)) :=
    .of_parts rfl (List.forall_mem_singleton.mpr generic)
  constructor
  · apply Store.Complete.of_parts rfl
    simp [shallow, deep, generic, list]
  · apply Store.Complete.of_parts rfl
    simp [shallow, generic, lists]

theorem generalize_instantiate_inverse_mixed :
    let p := mixedSupply
    let t := Ty.fn [.cell 0, .cell 1, .cell 2] (.cell 3)
    let scheme := p.store.generalize 2 t
    let poly := Ty.fn [.cell 0, .cell 2] (.list (.cell 2))
    p.store.Complete t ∧ p.store.Complete poly ∧ p.store.renewedIds 2 t = {2, 3} ∧
    (∃ (name : Int → Nat) (u : Ty) (q : Supply),
      Supply.instantiate ⟨scheme.2, 9⟩ 4 scheme.1 = (.ok u, q) ∧
      Set.BijOn name (p.store.renewedIds 2 t) (Set.Ico 5 q.store.size) ∧
      q.store.isGeneric u = .ok false ∧ q.nextId = 11) ∧
    ∃ u q, p.instantiate 4 poly = (.ok u, q) ∧
      ∃ number : Int → Int, Set.InjOn number {id | .rigid id ∈ (p.store.view poly).atoms} ∧
        (q.store.generalize 2 u).2.Reads (q.store.generalize 2 u).1
          ((p.store.view poly).instantiate fun id => .atom (.rigid (number id))) := by
  intro p t scheme poly
  obtain ⟨complete, complete'⟩ := mixedSupply_complete
  have word : IsWord p.nextId := by decide
  have unmarked : (4 : Int) ≠ genericLevel ∧ (4 : Int) ≠ linkLevel := by decide
  have ids : p.store.renewedIds 2 t = {2, 3} := by decide
  have atoms : (p.store.view poly).atoms = [.var 0, .rigid 3, .rigid 3] := by decide
  obtain ⟨⟨name, u, q, run, -, -, bijective, -, closed, next, -⟩, -⟩ :=
    generalize_instantiate_inverse 2 complete word unmarked
  obtain ⟨-, back⟩ := generalize_instantiate_inverse 2 complete' word unmarked
  change q.nextId = wrap64 (9 + (p.store.renewedIds 2 t).card) at next
  have advanced : q.nextId = 11 := by
    rw [next, ids]
    decide
  have shallow : ∀ ref own, .var ref ∈ (p.store.view poly).atoms →
      p.store.state ref = .unbound own → own ≤ 2 := by
    intro ref own member free
    obtain rfl : ref = 0 := by simpa [atoms] using member
    cases free
    decide
  have words : ∀ id, .rigid id ∈ (p.store.view poly).atoms → IsWord id := by
    intro id member
    obtain rfl : id = 3 := by simpa [atoms] using member
    decide
  exact ⟨complete, complete', ids, ⟨name, u, q, run, bijective, closed, advanced⟩,
    back shallow (by decide) words⟩

end LetPoly
