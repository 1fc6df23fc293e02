import LetPoly.Proofs.Replacing
import LetPoly.Proofs.Substitution
import LetPoly.Scheme
import Mathlib.Data.Set.Function
import Mathlib.Order.Interval.Set.Defs

namespace LetPoly

namespace Store

variable {s s' : Store} {t : Ty} {level : Int} {n m : Nat}

theorem bind_tree_view (s : Store) (g : Atom → Term Atom) (t : Ty) :
    (t.tree.bind fun leaf => (s.view leaf.toTy).bind g) = (s.view t).bind g := by
  rw [s.view_eq_bind t, Term.bind_bind]

theorem atoms_leaf_subset {leaf : Leaf} (met : leaf ∈ t.leaves) :
    (s.view leaf.toTy).atoms ⊆ (s.view t).atoms := by
  intro a inside
  rw [view_eq_bind s t, Term.mem_atoms_bind]
  exact ⟨leaf, Ty.leaves_eq_atoms t ▸ met, inside⟩

def closing (s : Store) (level : Int) : Substitution := fun ref =>
  match s.state ref with
  | .unbound own => if level < own then .atom (.rigid (s.cell ref).id) else .atom (.var ref)
  | _ => .atom (.var ref)

def namingWorld (s : Store) (Named : Store → Int → Ty → Prop) : World (Store × Renaming) where
  Valid st := s.Extends st.1 ∧ ∀ id u, st.2.lookup id = some u → Named st.1 id u
  Le st st' := st.1.Extends st'.1
  refl st := .refl st.1
  trans := .trans

theorem yields_named (Named : Store → Int → Ty → Prop) {id : Int} {st : Store × Renaming}
    (kept : ∀ {s s' : Store} {id u}, s.Extends s' → Named s id u → Named s' id u)
    (new : ∀ (s : Store) id, Named (s.alloc id .generic).2 id (.cell s.size))
    (valid : (s.namingWorld Named).Valid st) :
    Yields (Running.state _) (s.namingWorld Named) (fun st u => Named st.1 id u) (genericFor id) st := by
  obtain ⟨store, table⟩ := st
  cases found : table.lookup id with
  | some u =>
    refine ⟨u, (store, table), ?_, valid, Extends.refl store, fun st' _ le => ?_⟩
    · simp only [Running.state, genericFor, found]
    · exact kept le (valid.2 id u found)
  | none =>
    have grown : store.Extends (store.alloc id .generic).2 := extends_alloc store id .generic
    refine ⟨.cell store.size, ((store.alloc id .generic).2, (id, .cell store.size) :: table), ?_,
      ⟨valid.1.trans grown, fun other u => ?_⟩, grown, fun st' _ le => kept le (new store id)⟩
    · simp only [Running.state, genericFor, found]
      rfl
    · simp only [List.lookup_cons]
      split
      · rename_i same
        rintro ⟨⟩
        rw [eq_of_beq same]
        exact new store id
      · intro earlier
        exact kept grown (valid.2 other u earlier)

abbrev closingWorld (s : Store) : World (Store × Renaming) :=
  s.namingWorld fun s id u => s.Reads u (.atom (.rigid id))

theorem yields_genericFor {id : Int} {st : Store × Renaming} (valid : s.closingWorld.Valid st) :
    Yields (Running.state _) s.closingWorld (fun st u => st.1.Reads u (.atom (.rigid id)))
      (genericFor id) st := by
  refine yields_named (fun s id u => s.Reads u (.atom (.rigid id)))
    (fun grown reads => reads.extend grown) (fun s id => ?_) valid
  have generic : (s.alloc id .generic).2.state s.size = .generic := state_alloc_self s id .generic
  have reads := Reads.generic (by rw [size_alloc]; omega) generic
  rwa [cell_alloc_self] at reads

theorem generalizeWithin_replaces (level : Int) (complete : s.Complete t) (shallow : s.Shallow n t)
    (enough : n < m) :
    Replaces (Running.state _) s.closingWorld Prod.fst
      (fun _ leaf => (s.view leaf.toTy).subst (s.closing level)) t (generalizeWithin level m t) := by
  induction m generalizing n t with
  | zero => omega
  | succ m ih =>
    simp only [generalizeWithin]
    apply replaceM_replaces
    intro leaf met
    obtain ⟨ref, inside, rfl⟩ := complete.holds leaf met
    rintro ⟨store, table⟩ valid
    have same : store.state ref = s.state ref := valid.1.state inside
    apply yields_get
    simp only [Leaf.toTy, Ty.tree, Term.bind_atom, same]
    cases state : s.state ref with
    | linked target =>
      obtain ⟨k, rfl, below⟩ := shallow.link met state
      have whole : s.Complete (.cell ref) := .of_link inside state (complete.link met state)
      have replaces := ih (complete.link met state) below (by omega) (store, table) valid
      simp only [Term.subst, bind_tree_view] at replaces
      rw [view_linked whole.finite state]
      exact replaces
    | unbound own =>
      simp only [view_unbound state, Term.subst_atom, Atom.subst, closing, state]
      split
      · rw [valid.1.cell ref inside]
        exact yields_genericFor valid
      · exact yields_pure valid fun st' valid' _ =>
          .unbound ((valid'.1.state inside).trans state)
    | generic =>
      rw [view_generic state]
      have reads := Reads.generic inside state
      exact yields_pure valid fun st' valid' _ => reads.extend valid'.1

theorem generalize_spec (level : Int) (complete : s.Complete t) :
    s.Extends (s.generalize level t).2 ∧
      (s.generalize level t).2.Reads (s.generalize level t).1 ((s.view t).subst (s.closing level)) := by
  have start : s.closingWorld.Valid (s, []) := ⟨.refl s, by simp⟩
  have within : s.Shallow s.size t := complete.finite.shallow
  have replaces := generalizeWithin_replaces level complete within (Nat.lt_succ_self s.size)
  obtain ⟨u, ⟨s', table⟩, runs, valid, grown, reads⟩ := replaces (s, []) start
  have result : s.generalize level t = (u, s') := by
    simp only [generalize]
    rw [show generalizeWithin level s.depth t (s, []) = (u, s', table) from runs]
  rw [result]
  have reads := reads (s', table) valid (Extends.refl s')
  simp only [Term.subst, bind_tree_view] at reads
  exact ⟨grown, reads⟩

theorem anyM_eq_ok {α : Type} {f : α → Except Fault Bool} {P : α → Prop} {xs : List α}
    (each : ∀ x ∈ xs, ∃ b, f x = .ok b ∧ (b = true ↔ P x)) :
    ∃ b, xs.anyM f = .ok b ∧ (b = true ↔ ∃ x ∈ xs, P x) := by
  induction xs with
  | nil => exact ⟨false, rfl, by simp⟩
  | cons x xs ih =>
    obtain ⟨first, rest⟩ := List.forall_mem_cons.mp each
    obtain ⟨b, runs, holds⟩ := first
    obtain ⟨c, runs', holds'⟩ := ih rest
    cases b with
    | true =>
      refine ⟨true, ?_, by simp [holds.mp rfl]⟩
      rw [List.anyM, runs]
      rfl
    | false =>
      refine ⟨c, ?_, ?_⟩
      · rw [List.anyM, runs]
        exact runs'
      · rw [holds', List.exists_mem_cons_iff]
        exact (or_iff_right (mt holds.mpr (by simp))).symm

theorem isGenericWithin_spec (complete : s.Complete t) (shallow : s.Shallow n t) (enough : n < m) :
    ∃ b, s.isGenericWithin m t = .ok b ∧ (b = true ↔ ∃ id, .rigid id ∈ (s.view t).atoms) := by
  induction m generalizing n t with
  | zero => omega
  | succ m ih =>
    have met : (∃ id, .rigid id ∈ (s.view t).atoms) ↔
        ∃ leaf ∈ t.leaves, ∃ id, .rigid id ∈ (s.view leaf.toTy).atoms := by
      rw [view_eq_bind]
      simp only [Term.mem_atoms_bind, Ty.leaves_eq_atoms]
      constructor
      · rintro ⟨id, leaf, member, inside⟩
        exact ⟨leaf, member, id, inside⟩
      · rintro ⟨leaf, member, id, inside⟩
        exact ⟨id, leaf, member, inside⟩
    rw [met]
    apply anyM_eq_ok
    intro leaf member
    obtain ⟨ref, inside, rfl⟩ := complete.holds leaf member
    cases state : s.state ref with
    | unbound own => exact ⟨false, by simp [state], by simp [Leaf.toTy, view_unbound state]⟩
    | generic => exact ⟨true, by simp [state], by simp [Leaf.toTy, view_generic state]⟩
    | linked target =>
      obtain ⟨k, rfl, below⟩ := shallow.link member state
      have whole : s.Complete (.cell ref) := .of_link inside state (complete.link member state)
      simp only [Leaf.toTy, state, view_linked whole.finite state]
      exact ih (complete.link member state) below (by omega)

theorem isGeneric_spec (complete : s.Complete t) :
    ∃ b, s.isGeneric t = .ok b ∧ (b = true ↔ ∃ id, .rigid id ∈ (s.view t).atoms) :=
  isGenericWithin_spec complete complete.finite.shallow (Nat.lt_succ_self s.size)

end Store

namespace Supply

variable {p : Supply} {t : Ty} {level : Int} {ids : Set Int} {n m : Nat}

theorem freshUnbound_eq (p : Supply) (unmarked : level ≠ genericLevel ∧ level ≠ linkLevel) :
    p.freshUnbound level =
      (.cell p.store.size, ⟨(p.store.alloc p.nextId (.unbound level)).2, wrap64 (p.nextId + 1)⟩) := by
  simp [freshUnbound, fresh, VarState.ofLevel, unmarked, Store.alloc]

/-- While a type is instantiated its store only grows, and by the variables in the table alone: there
    is a different one for each number, and the numbers are among those of the type. -/
structure Opening (p : Supply) (level : Int) (ids : Set Int) (st : Supply × Renaming) : Prop where
  grown : p.store.Extends st.1.store
  known : ∀ id u, st.2.lookup id = some u →
    ∃ ref, u = .cell ref ∧ p.store.size ≤ ref ∧ ref < st.1.store.size
  injective : ∀ id id' u, st.2.lookup id = some u → st.2.lookup id' = some u → id = id'
  made : ∀ ref, p.store.size ≤ ref → ref < st.1.store.size →
    st.1.store.state ref = .ofLevel level ∧ ∃ id ∈ ids, st.2.lookup id = some (.cell ref)

def openingWorld (p : Supply) (level : Int) (ids : Set Int) : World (Supply × Renaming) where
  Valid := p.Opening level ids
  Le st st' := st.1.store.Extends st'.1.store ∧
    ∀ id u, st.2.lookup id = some u → st'.2.lookup id = some u
  refl st := ⟨.refl st.1.store, fun _ _ h => h⟩
  trans first second := ⟨first.1.trans second.1, fun id u h => second.2 id u (first.2 id u h)⟩

def opened (st : Supply × Renaming) (id : Int) : Term Atom :=
  match st.2.lookup id with
  | some u => st.1.store.view u
  | none => .atom .missing

theorem lookup_cons_eq_some {table : Renaming} {id other : Int} {t u : Ty}
    (found : List.lookup other ((id, t) :: table) = some u) :
    (other = id ∧ u = t) ∨ table.lookup other = some u := by
  rw [List.lookup_cons] at found
  split at found
  · rename_i same
    exact .inl ⟨eq_of_beq same, (Option.some.inj found).symm⟩
  · exact .inr found

theorem lookup_cons_of_absent {table : Renaming} {id other : Int} {t u : Ty}
    (absent : table.lookup id = none) (found : table.lookup other = some u) :
    List.lookup other ((id, t) :: table) = some u := by
  have different : other ≠ id := by
    intro same
    rw [same, absent] at found
    cases found
  rw [List.lookup_cons, beq_eq_false_iff_ne.mpr different]
  exact found

theorem Opening.fresh {q : Supply} {table : Renaming} {id : Int}
    (opening : p.Opening level ids (q, table)) (absent : table.lookup id = none) (member : id ∈ ids) :
    p.Opening level ids ((q.freshUnbound level).2, (id, .cell q.store.size) :: table) := by
  let q' := (q.freshUnbound level).2
  have size : q'.store.size = q.store.size + 1 := Store.size_alloc _ _ _
  have grown : q.store.Extends q'.store := Store.extends_alloc _ _ _
  have earlier : ∀ other, table.lookup other ≠ some (.cell q.store.size) := by
    intro other found
    obtain ⟨ref, same, -, inside⟩ := opening.known other _ found
    cases same
    exact Nat.lt_irrefl _ inside
  refine ⟨opening.grown.trans grown, fun other u found => ?_, fun left right u found found' => ?_,
    fun ref new inside => ?_⟩
  · rcases lookup_cons_eq_some found with ⟨-, rfl⟩ | found
    · exact ⟨q.store.size, rfl, opening.grown.size, Nat.lt_of_lt_of_eq (Nat.lt_succ_self _) size.symm⟩
    · obtain ⟨ref, same, new, inside⟩ := opening.known other u found
      exact ⟨ref, same, new, Nat.lt_of_lt_of_le inside grown.size⟩
  · rcases lookup_cons_eq_some found with ⟨rfl, rfl⟩ | before <;>
      rcases lookup_cons_eq_some found' with ⟨rfl, same⟩ | before'
    · rfl
    · exact absurd before' (earlier right)
    · exact absurd (same ▸ before) (earlier left)
    · exact opening.injective left right u before before'
  · rcases Nat.lt_or_eq_of_le (Nat.le_of_lt_succ (size ▸ inside)) with old | rfl
    · obtain ⟨state, other, among, found⟩ := opening.made ref new old
      exact ⟨(grown.state old).trans state, other, among, lookup_cons_of_absent absent found⟩
    · exact ⟨Store.state_alloc_self _ _ _, id, member, by simp⟩

theorem yields_instanceOf {id : Int} {st : Supply × Renaming} (unlinked : level ≠ linkLevel)
    (member : id ∈ ids) (opening : p.Opening level ids st) :
    Yields (Running.except Fault _) (p.openingWorld level ids)
      (fun st u => st.1.store.Reads u (opened st id)) (instanceOf level id) st := by
  have reads : ∀ u st', p.Opening level ids st' → st'.2.lookup id = some u →
      st'.1.store.Reads u (opened st' id) := by
    intro u st' opening' found
    obtain ⟨ref, rfl, new, inside⟩ := opening'.known id u found
    refine ⟨.of_plain inside fun target linked => unlinked ?_, by simp only [opened, found]⟩
    rw [(opening'.made ref new inside).1] at linked
    exact (VarState.ofLevel_eq_linked linked).1
  obtain ⟨q, table⟩ := st
  cases found : table.lookup id with
  | some u =>
    refine ⟨u, (q, table), ?_, opening, (p.openingWorld level ids).refl _, fun st' opening' le => ?_⟩
    · simp only [Running.except, instanceOf, found]
    · exact reads u st' opening' (le.2 id _ found)
  | none =>
    have le : (p.openingWorld level ids).Le (q, table)
        ((q.freshUnbound level).2, (id, .cell q.store.size) :: table) :=
      ⟨Store.extends_alloc _ _ _, fun other u => lookup_cons_of_absent found⟩
    refine ⟨.cell q.store.size, (_, _), ?_, opening.fresh found member, le, fun st' opening' le' => ?_⟩
    · simp only [Running.except, instanceOf, found]
      rfl
    · exact reads _ st' opening' (le'.2 id _ (by simp))

theorem yields_liftExcept {α : Type} {world : World (Supply × Renaming)}
    {G : Supply × Renaming → α → Prop} {st : Supply × Renaming} {b : Bool}
    {k : Bool → ExceptT Fault (StateM (Supply × Renaming)) α}
    (rest : Yields (Running.except Fault _) world G (k b) st) :
    Yields (Running.except Fault _) world G (instantiateWithin.liftExcept (.ok b) >>= k) st := rest

theorem instantiateWithin_replaces (unlinked : level ≠ linkLevel) (complete : p.store.Complete t)
    (among : ∀ id, .rigid id ∈ (p.store.view t).atoms → id ∈ ids) (shallow : p.store.Shallow n t)
    (enough : n < m) :
    Replaces (Running.except Fault _) (p.openingWorld level ids) (fun st => st.1.store)
      (fun st leaf => (p.store.view leaf.toTy).instantiate (opened st)) t
      (instantiateWithin level m t) := by
  induction m generalizing n t with
  | zero => omega
  | succ m ih =>
    simp only [instantiateWithin]
    apply replaceM_replaces
    intro leaf met
    obtain ⟨ref, inside, rfl⟩ := complete.holds leaf met
    intro st opening
    obtain ⟨q, table⟩ := st
    have same : q.store.state ref = p.store.state ref := opening.grown.state inside
    have among : ∀ id, .rigid id ∈ (p.store.view (.cell ref)).atoms → id ∈ ids :=
      fun id member => among id (Store.atoms_leaf_subset met member)
    apply yields_getThe
    simp only [Leaf.toTy, Ty.tree, Term.bind_atom, same]
    cases state : p.store.state ref with
    | generic =>
      have member := among (p.store.cell ref).id (by simp [Store.view_generic state])
      simp only [Store.view_generic state, Term.instantiate_atom, Atom.instantiate]
      rw [opening.grown.cell ref inside]
      exact yields_instanceOf unlinked member opening
    | unbound own =>
      simp only [Store.view_unbound state, Term.instantiate_atom, Atom.instantiate]
      exact yields_pure opening fun st' opening' _ =>
        .unbound ((opening'.grown.state inside).trans state)
    | linked target =>
      obtain ⟨k, rfl, below⟩ := shallow.link met state
      have targetComplete : p.store.Complete target := complete.link met state
      have whole : p.store.Complete (.cell ref) := .of_link inside state targetComplete
      rw [Store.view_linked whole.finite state] at among
      have replaces := ih targetComplete among below (by omega) (q, table) opening
      simp only [Term.instantiate, Store.bind_tree_view] at replaces
      obtain ⟨b, asked, generic⟩ := Store.isGeneric_spec (targetComplete.extend opening.grown)
      rw [targetComplete.view_extend opening.grown] at generic
      rw [Store.view_linked whole.finite state]
      simp only [asked]
      apply yields_liftExcept
      cases b with
      | true => exact replaces
      | false =>
        -- a part without generic variables is shared
        have closed : ∀ φ, (p.store.view target).instantiate φ = p.store.view target := by
          intro φ
          refine (Term.instantiate_congr fun id member => ?_).trans (Term.instantiate_rigid _)
          exact absurd (generic.mpr ⟨id, member⟩) (by simp)
        simp only [closed]
        exact yields_pure opening fun st' opening' _ =>
          .extend opening'.grown ⟨whole, Store.view_linked whole.finite state⟩

/-- A type with variables in the place of the generic ones. They are all that has been made, and each
    number has one of its own. -/
structure Opens (p : Supply) (level : Int) (t : Ty) (name : Int → Nat) (u : Ty) (q : Supply) :
    Prop where
  grown : p.store.Extends q.store
  reads : q.store.Reads u ((p.store.view t).instantiate fun id => q.store.view (.cell (name id)))
  bijective : Set.BijOn name {id | .rigid id ∈ (p.store.view t).atoms}
    (Set.Ico p.store.size q.store.size)
  made : ∀ ref ∈ Set.Ico p.store.size q.store.size, q.store.state ref = .ofLevel level

theorem instantiate_opens (unlinked : level ≠ linkLevel) (complete : p.store.Complete t) :
    ∃ name u q, p.instantiate level t = (.ok u, q) ∧ p.Opens level t name u q := by
  let ids := {id | .rigid id ∈ (p.store.view t).atoms}
  have start : p.Opening level ids (p, []) :=
    ⟨.refl _, by simp, by simp, fun ref new inside => absurd inside (Nat.not_lt.mpr new)⟩
  have within : p.store.Shallow p.store.size t := complete.finite.shallow
  have replaces := instantiateWithin_replaces unlinked complete (fun _ member => member) within
    (Nat.lt_succ_self p.store.size)
  obtain ⟨u, ⟨q, table⟩, runs, opening, le, reads⟩ := replaces (p, []) start
  have reads := reads (q, table) opening ((p.openingWorld level ids).refl _)
  simp only [Term.instantiate, Store.bind_tree_view] at reads
  change q.store.Reads u ((p.store.view t).instantiate (opened (q, table))) at reads
  -- nothing is missing in the result, so that the table has all the numbers
  have found : ∀ id ∈ ids, ∃ ref, table.lookup id = some (.cell ref) := by
    intro id member
    cases entry : table.lookup id with
    | some v =>
      obtain ⟨ref, rfl, -⟩ := opening.known id v entry
      exact ⟨ref, rfl⟩
    | none =>
      refine absurd ?_ reads.complete.missing_notMem
      rw [reads.view_eq, Term.instantiate, Term.mem_atoms_bind]
      exact ⟨.rigid id, member, by simp [Atom.instantiate, opened, entry]⟩
  choose! name named using found
  have result : p.instantiate level t = (.ok u, q) := by
    simp only [instantiate]
    rw [show instantiateWithin level p.store.depth t (p, []) = (.ok u, q, table) from runs]
  have names : (p.store.view t).instantiate (opened (q, table)) =
      (p.store.view t).instantiate fun id => q.store.view (.cell (name id)) :=
    Term.instantiate_congr fun id member => by simp only [opened, named id member]
  refine ⟨name, u, q, result, le.1, names ▸ reads, ⟨?_, ?_, ?_⟩, ?_⟩
  · intro id member
    obtain ⟨ref, same, new, inside⟩ := opening.known id _ (named id member)
    cases same
    exact ⟨new, inside⟩
  · intro id member id' member' same
    exact opening.injective id id' _ (named id member) (same ▸ named id' member')
  · intro ref between
    obtain ⟨-, id, member, entry⟩ := opening.made ref between.1 between.2
    rw [named id member] at entry
    cases entry
    exact ⟨id, member, rfl⟩
  · intro ref between
    exact (opening.made ref between.1 between.2).1

namespace Opens

variable {name : Int → Nat} {u : Ty} {q : Supply}

theorem unbound (opens : p.Opens level t name u q)
    (unmarked : level ≠ genericLevel ∧ level ≠ linkLevel) :
    ∀ id, .rigid id ∈ (p.store.view t).atoms → q.store.state (name id) = .unbound level := by
  intro id member
  rw [opens.made _ (opens.bijective.mapsTo member)]
  simp [VarState.ofLevel, unmarked]

theorem reads_unbound (opens : p.Opens level t name u q)
    (unmarked : level ≠ genericLevel ∧ level ≠ linkLevel) :
    q.store.Reads u ((p.store.view t).instantiate fun id => .atom (.var (name id))) := by
  have names := Term.instantiate_congr fun id member =>
    Store.view_unbound (opens.unbound unmarked id member)
  exact names ▸ opens.reads

end Opens

theorem instantiate_spec (unmarked : level ≠ genericLevel ∧ level ≠ linkLevel)
    (complete : p.store.Complete t) :
    ∃ u q, p.instantiate level t = (.ok u, q) ∧ p.store.Extends q.store ∧
      ∃ name : Int → Nat,
        q.store.Reads u ((p.store.view t).instantiate fun id => .atom (.var (name id))) ∧
        (∀ id, .rigid id ∈ (p.store.view t).atoms →
          p.store.size ≤ name id ∧ q.store.state (name id) = .unbound level) ∧
        ∀ id id', .rigid id ∈ (p.store.view t).atoms → .rigid id' ∈ (p.store.view t).atoms →
          name id = name id' → id = id' := by
  obtain ⟨name, u, q, run, opens⟩ := instantiate_opens unmarked.2 complete
  have fresh := opens.unbound unmarked
  refine ⟨u, q, run, opens.grown, name, opens.reads_unbound unmarked, fun id member => ?_, ?_⟩
  · exact ⟨(opens.bijective.mapsTo member).1, fresh id member⟩
  · intro id id' member member' same
    exact opens.bijective.injOn member member' same

end Supply

end LetPoly
