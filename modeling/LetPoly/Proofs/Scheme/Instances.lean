import LetPoly.Proofs.Batch.Isolation
import LetPoly.Proofs.Workspace.History

namespace LetPoly

namespace Store

variable {s s' : Store} {a b t : Ty} {ref : Nat} {pairs : List (Ty × Ty)}

def Apart (s : Store) (a b : Ty) : Prop :=
  ∀ ref level, s.state ref = .unbound level → s.Reaches a ref → ¬ s.Reaches b ref

theorem Apart.symm (apart : s.Apart a b) : s.Apart b a :=
  fun ref level free reach reach' => apart ref level free reach' reach

theorem NoUnbound.apart (closed : s.NoUnbound t) (a : Ty) : s.Apart a t :=
  fun ref level free _ reach => closed ref level reach free

theorem Extends.same (ext : s.Extends s') (complete : s.Complete t) : s.Same s' t :=
  fun ref reach => ext.cell ref (complete.reaches_inside reach)

theorem Later.same (later : s.Later s') (complete : s.Complete t) (closed : s.NoUnbound t) :
    s.Same s' t := by
  intro ref reach
  have inside := complete.reaches_inside reach
  apply Cell.ext (later.id ref inside)
  cases state : s.state ref with
  | unbound level => exact absurd state (closed ref level reach)
  | generic => exact (later.generic ref inside state).trans state.symm
  | linked target => exact (later.linked ref target state).trans state.symm

theorem Same.complete (same : s.Same s' t) (size : s.size ≤ s'.size) (complete : s.Complete t) :
    s'.Complete t := by
  apply (same.throughout complete).imp
  intro u within leaf met
  obtain ⟨ref, inside, rfl⟩ := within leaf met
  exact ⟨ref, Nat.lt_of_lt_of_le inside size, rfl⟩

theorem Same.noUnbound (same : s.Same s' t) (closed : s.NoUnbound t) : s'.NoUnbound t := by
  intro ref level reach free
  have before := same.reaches reach
  rw [Store.state, same ref before] at free
  exact closed ref level before free

theorem unifyEach_leaves (unmarked : s.Unmarked)
    (apart : ∀ pair ∈ pairs, s.Apart pair.1 t ∧ s.Apart pair.2 t) :
    (s.unifyEach pairs).1.resolve t = s.resolve t ∧ s.Same (s.unifyEach pairs).1 t := by
  have same : s.Same (s.unifyEach pairs).1 t := by
    apply unifyEach_same unmarked
    intro pair member ref level reach free
    rcases reach with reach | reach
    · exact (apart pair member).1 ref level free reach
    · exact (apart pair member).2 ref level free reach
  exact ⟨same.resolve_eq (size_unifyEach unmarked pairs), same⟩

theorem unify_leaves (unmarked : s.Unmarked) (apart : s.Apart a t) (apart' : s.Apart b t) :
    (s.unify a b).1.resolve t = s.resolve t ∧ s.Same (s.unify a b).1 t := by
  have both : ∀ pair ∈ [(a, b)], s.Apart pair.1 t ∧ s.Apart pair.2 t :=
    List.forall_mem_singleton.mpr ⟨apart, apart'⟩
  have single : (s.unifyEach [(a, b)]).1 = (s.unify a b).1 := by simp only [unifyEach]
  rw [← single]
  exact unifyEach_leaves unmarked both

end Store

namespace Supply

variable {p q : Supply} {a t u : Ty} {level : Int} {name : Int → Nat} {ref : Nat}

theorem Opens.own (opens : p.Opens level t name u q)
    (unmarked : level ≠ genericLevel ∧ level ≠ linkLevel) (complete : p.store.Complete t)
    (closed : p.store.NoUnbound t) {own : Int} (free : q.store.state ref = .unbound own)
    (reach : q.store.Reaches u ref) : p.store.size ≤ ref := by
  have reads := opens.reads_unbound unmarked
  have member := (Store.var_mem_view reads.complete.finite).mpr ⟨reach, own, free⟩
  rw [reads.view_eq, Term.instantiate, Term.mem_atoms_bind] at member
  obtain ⟨atom, inside, met⟩ := member
  cases atom with
  | missing => simp [Atom.instantiate] at met
  | var other =>
    obtain ⟨reach, own, free⟩ := (Store.var_mem_view complete.finite).mp inside
    exact absurd free (closed other own reach)
  | rigid id =>
    obtain rfl : ref = name id := by simpa [Atom.instantiate] using met
    exact (opens.bijective.mapsTo inside).1

theorem Opens.apart (opens : p.Opens level t name u q)
    (unmarked : level ≠ genericLevel ∧ level ≠ linkLevel) (complete : p.store.Complete t)
    (closed : p.store.NoUnbound t) (earlier : p.store.Complete a) : q.store.Apart a u := by
  intro ref own free reach reach'
  have before := (opens.grown.same earlier).reaches reach
  have old := earlier.reaches_inside before
  have new := opens.own unmarked complete closed free reach'
  omega

end Supply

open Store in
/-- Instances of a type whose variables are all generic do not depend on each other, whatever happens
    to the store between their making and afterwards. They have no unbound variable in common. Solving
    types, whether it fails or not, leaves each of them alone as long as the types have none of its
    unbound variables in them when it starts, and it never changes the type of which they are
    instances. So one instance can be made equal to anything that is apart from the other. -/
theorem instances_independent {p : Supply} {t : Ty} {level level' : Int}
    (complete : p.store.Complete t) (closed : p.store.NoUnbound t)
    (unmarked : level ≠ genericLevel ∧ level ≠ linkLevel)
    (unmarked' : level' ≠ genericLevel ∧ level' ≠ linkLevel) :
    ∃ i q, p.instantiate level t = (.ok i, q) ∧
    ∀ mid : Supply, q.store.Later mid.store → mid.store.Unmarked → mid.store.Complete i →
    ∃ j r, mid.instantiate level' t = (.ok j, r) ∧ r.store.Apart i j ∧
    (∀ s pairs, r.store.Later s → s.Unmarked →
      let s' := (s.unifyEach pairs).1
      (∀ k, k = i ∨ k = j → (∀ pair ∈ pairs, s.Apart pair.1 k ∧ s.Apart pair.2 k) →
        s'.resolve k = s.resolve k ∧ s.Same s' k) ∧
      s'.resolve t = s.resolve t ∧ s'.shown t = p.store.shown t) ∧
    (∀ a, r.store.Apart a j →
      let s' := (r.store.unify i a).1
      s'.resolve j = r.store.resolve j ∧ r.store.Same s' j) ∧
    ∀ a, r.store.Apart a i →
      let s' := (r.store.unify j a).1
      s'.resolve i = r.store.resolve i ∧ r.store.Same s' i := by
  obtain ⟨name, i, q, run, opens⟩ := Supply.instantiate_opens unmarked.2 complete
  refine ⟨i, q, run, fun mid later midUnmarked whole => ?_⟩
  have toMid : p.store.Later mid.store := opens.grown.later.trans later
  have same := toMid.same complete closed
  have complete' : mid.store.Complete t := same.complete toMid.size complete
  have closed' : mid.store.NoUnbound t := same.noUnbound closed
  obtain ⟨name', j, r, run', opens'⟩ := Supply.instantiate_opens unmarked'.2 complete'
  have apart : r.store.Apart i j := opens'.apart unmarked' complete' closed' whole
  have endUnmarked : r.store.Unmarked := by
    have grown : mid.store.Grown (mid.instantiate level' t).2.store :=
      Supply.grown_kept.instantiate 0 True.intro mid t
    rw [run'] at grown
    intro ref own free
    exact grown.unmarked midUnmarked free
  refine ⟨j, r, run', apart, fun s pairs later' sUnmarked => ⟨fun k _ => ?_, ?_⟩,
    fun a => unify_leaves endUnmarked apart, fun a => unify_leaves endUnmarked apart.symm⟩
  · exact unifyEach_leaves sUnmarked
  · have start : p.store.Later s := (toMid.trans opens'.grown.later).trans later'
    have forward := (unifyEach_steps sUnmarked pairs).forward sUnmarked
    have closed'' : s.NoUnbound t := (start.same complete closed).noUnbound closed
    have alone : ∀ pair ∈ pairs, s.Apart pair.1 t ∧ s.Apart pair.2 t :=
      fun pair _ => ⟨closed''.apart pair.1, closed''.apart pair.2⟩
    have whole := (start.trans forward.later).same complete closed
    exact ⟨(unifyEach_leaves sUnmarked alone).1, whole.shown_eq complete.finite⟩

def schemeSupply (made : List Cell) (nextId : Int) : Supply :=
  let cells := ⟨7, .generic⟩ :: ⟨8, .linked (.list (.cell 0))⟩ :: ⟨9, .linked .int⟩ :: made
  ⟨{ cells := cells.toArray }, nextId⟩

def schemeType : Ty := .fn [.cell 0, .cell 2] (.cell 1)

theorem schemeType_complete : (schemeSupply [] 10).store.Complete schemeType := by
  have generic : (schemeSupply [] 10).store.Complete (.cell 0) :=
    .of_plain (by decide) fun target linked => by cases linked
  have list : (schemeSupply [] 10).store.Complete (.cell 1) :=
    .of_link (by decide) rfl (.of_parts rfl (List.forall_mem_singleton.mpr generic))
  have int : (schemeSupply [] 10).store.Complete (.cell 2) :=
    .of_link (by decide) rfl (.of_parts rfl (by simp))
  apply Store.Complete.of_parts rfl
  simp [generic, list, int]

theorem schemeType_noUnbound : (schemeSupply [] 10).store.NoUnbound schemeType := by
  intro ref level _ free
  rcases ref with _ | _ | _ | ref
  all_goals cases free

theorem instances_independent_scheme :
    let i := Ty.fn [.cell 3, .cell 2] (.list (.cell 3))
    let j := Ty.fn [.cell 4, .cell 2] (.list (.cell 4))
    let p := schemeSupply [] 10
    let q := schemeSupply [⟨10, .unbound 1⟩] 11
    let r := schemeSupply [⟨10, .unbound 1⟩, ⟨11, .unbound 2⟩] 12
    let pair := (i, Ty.fn [.int, .int] (.list .string))
    let s' := (schemeSupply [⟨10, .linked .int⟩, ⟨11, .unbound 2⟩] 12).store
    p.store.Complete schemeType ∧ p.store.NoUnbound schemeType ∧
      p.instantiate 1 schemeType = (.ok i, q) ∧
      q.instantiate 2 schemeType = (.ok j, r) ∧ r.store.Apart i j ∧
      r.store.unifyEach [pair] = (s', [some (.mismatch i pair.2)]) ∧
      s'.resolve j = r.store.resolve j ∧ r.store.Same s' j ∧
      s'.shown schemeType = p.store.shown schemeType := by
  intro i j p q r pair s'
  have qUnmarked : q.store.Unmarked := by
    intro ref level free
    rcases ref with _ | _ | _ | _ | ref
    all_goals cases free
    decide
  have rUnmarked : r.store.Unmarked := by
    intro ref level free
    rcases ref with _ | _ | _ | _ | _ | ref
    all_goals cases free
    all_goals decide
  have solved : r.store.unifyEach [pair] = (s', [some (.mismatch i pair.2)]) := rfl
  have first : p.instantiate 1 schemeType = (.ok i, q) := rfl
  have second : q.instantiate 2 schemeType = (.ok j, r) := rfl
  have one : (1 : Int) ≠ genericLevel ∧ (1 : Int) ≠ linkLevel := by decide
  have two : (2 : Int) ≠ genericLevel ∧ (2 : Int) ≠ linkLevel := by decide
  have whole : q.store.Complete i := by
    obtain ⟨_, i', q', run, opens⟩ := Supply.instantiate_opens one.2 schemeType_complete
    obtain ⟨same, rfl⟩ := Prod.mk.inj (first.symm.trans run)
    obtain rfl := Except.ok.inj same
    exact opens.reads.complete
  obtain ⟨i', q', run, rest⟩ := instances_independent schemeType_complete schemeType_noUnbound one two
  obtain ⟨same, rfl⟩ := Prod.mk.inj (first.symm.trans run)
  obtain rfl := Except.ok.inj same
  obtain ⟨j', r', run', apart, later, -⟩ := rest q (Store.Extends.refl _).later qUnmarked whole
  obtain ⟨same', rfl⟩ := Prod.mk.inj (second.symm.trans run')
  obtain rfl := Except.ok.inj same'
  obtain ⟨kept, -, scheme⟩ := later r.store [pair] (Store.Extends.refl _).later rUnmarked
  have closed : r.store.Apart pair.2 j := by
    intro ref level _ reach
    have bare : pair.2.leaves = [] := rfl
    cases reach with
    | here leaf =>
      rw [bare] at leaf
      cases leaf
    | through leaf =>
      rw [bare] at leaf
      cases leaf
  rw [solved] at kept scheme
  obtain ⟨resolved, same⟩ := kept j (.inr rfl) (List.forall_mem_singleton.mpr ⟨apart, closed⟩)
  exact ⟨schemeType_complete, schemeType_noUnbound, first, second, apart, solved, resolved, same,
    scheme⟩

end LetPoly
