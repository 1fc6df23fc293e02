import LetPoly.Proofs.Batch.Twin

namespace LetPoly

namespace Mirror

variable {m : Mirror} {p p' : Supply} {s s₀ : Store} {t t' u target : Ty} {ref n k k' : Nat}
  {level : Int} {κ : Int → Int} {good : Leaf → Prop}

def Tables (m : Mirror) (N : Nat) (κ : Int → Int) (table table' : Renaming) : Prop :=
  List.Forall₂ (fun a b => b.1 = κ a.1 ∧ m.Own N a.2 b.2) table table'

theorem Tables.mono {N N' : Nat} {table table' : Renaming} (le : N ≤ N')
    (tables : m.Tables N κ table table') : m.Tables N' κ table table' :=
  tables.imp fun _ _ entry => ⟨entry.1, entry.2.mono le⟩

theorem Tables.lookup {N : Nat} {table table' : Renaming} (tables : m.Tables N κ table table')
    (injective : Function.Injective κ) (id : Int) :
    (table.lookup id = none ∧ table'.lookup (κ id) = none) ∨
      ∃ u u', table.lookup id = some u ∧ table'.lookup (κ id) = some u' ∧ m.Own N u u' := by
  induction tables with
  | nil => exact .inl ⟨rfl, rfl⟩
  | @cons entry entry' table table' first _ ih =>
    obtain ⟨number, u⟩ := entry
    obtain ⟨number', u'⟩ := entry'
    obtain ⟨rfl, own⟩ := first
    rw [List.lookup_cons, List.lookup_cons]
    by_cases same : id = number
    · subst same
      exact .inr ⟨u, u', by simp, by simp, own⟩
    · have apart : κ id ≠ κ number := fun equal => same (injective equal)
      simpa [beq_eq_false_iff_ne.mpr same, beq_eq_false_iff_ne.mpr apart] using ih

structure Opening (m : Mirror) (s₀ : Store) (κ : Int → Int) (st st' : Supply × Renaming) : Prop where
  twin : m.Twin st.1 st'.1
  grown : s₀.Extends st.1.store
  tables : m.Tables st.1.store.size κ st.2 st'.2

/-- Types of a kind that can be instantiated side by side: they read alike, and what is left as it is
    in them was made by the run itself. -/
structure Openable (m : Mirror) (s₀ : Store) (κ : Int → Int) (good : Leaf → Prop) : Prop where
  injective : Function.Injective κ
  inside : ∀ ref, good (.cell ref) → ref < s₀.size
  facing : ∀ {p p'}, m.Twin p p' → s₀.Extends p.store → m.Facing p.store p'.store κ good
  unbound : ∀ {s} ref level, s₀.Extends s → good (.cell ref) → s.state ref = .unbound level →
    m.OwnLeaf s₀.size (.cell ref)
  shared : ∀ {s} ref target, s₀.Extends s → good (.cell ref) → s.state ref = .linked target →
    s.isGeneric target = .ok false → m.OwnLeaf s₀.size (.cell ref)

abbrev openingStep (m : Mirror) (s₀ : Store) (κ : Int → Int) :
    Lockstep (ExceptT Fault (StateM (Supply × Renaming)))
      (ExceptT Fault (StateM (Supply × Renaming))) :=
  .except (m.Opening s₀ κ) (fun st => st.1.store.size) m.loose

theorem instanceOf_keeps (marked : level = linkLevel → m.loose) (injective : Function.Injective κ)
    (id : Int) :
    (m.openingStep s₀ κ).Keeps m.Own (Supply.instanceOf level id) (Supply.instanceOf level (κ id)) := by
  rintro ⟨p, table⟩ ⟨p', table'⟩ opening
  rcases opening.tables.lookup injective id with ⟨none, none'⟩ | ⟨u, u', found, found', own⟩
  · have grown : p.store.Extends (p.freshUnbound level).2.store := Store.extends_alloc _ _ _
    have own := opening.twin.own_draw level
    simp only [AbreastFrom, Supply.instanceOf, none, none']
    refine ⟨⟨opening.twin.draw level marked, opening.grown.trans grown, ?_⟩, grown.size, own⟩
    exact .cons ⟨rfl, own⟩ (opening.tables.mono grown.size)
  · simp only [AbreastFrom, Supply.instanceOf, found, found']
    exact ⟨opening, Nat.le_refl _, own⟩

theorem Own.cell {N : Nat} (own : m.OwnLeaf N (.cell ref)) :
    m.Own N (.cell ref) (.cell (m.place ref)) :=
  ⟨mates_cell_iff.mpr rfl, fun leaf met => by rw [List.mem_singleton.mp met]; exact own⟩

theorem instantiateWithin_keeps (openable : m.Openable s₀ κ good)
    (marked : level = linkLevel → m.loose) (shallow : s₀.Shallow n t) (enough : n < k)
    (enough' : n < k') (all : ∀ leaf ∈ t.leaves, good leaf) (mates : m.Mates t t') :
    (m.openingStep s₀ κ).Keeps m.Own (Supply.instantiateWithin level k t)
      (Supply.instantiateWithin level k' t') := by
  induction k generalizing n k' t t' with
  | zero => omega
  | succ k ih =>
    obtain ⟨k', rfl⟩ : ∃ j, k' = j + 1 := ⟨k' - 1, by omega⟩
    simp only [Supply.instantiateWithin]
    rw [mates.replaceM fun leaf => by cases leaf <;> rfl]
    refine replaceM_lockstep _ Own.mono Own.node fun leaf met => ?_
    cases leaf with
    | missing mark =>
      intro st st' opening
      have loose := (openable.facing opening.twin opening.grown).missing mark (all _ met)
      exact ⟨opening, Nat.le_refl _, rfl, loose⟩
    | cell ref =>
      have here := all _ met
      apply keeps_getThe
      rintro ⟨p, table⟩ ⟨p', table'⟩ opening
      have facing := openable.facing opening.twin opening.grown
      have same : p.store.state ref = s₀.state ref := opening.grown.state (openable.inside ref here)
      have le : s₀.size ≤ p.store.size := opening.grown.size
      cases state : p.store.state ref with
      | linked target =>
        obtain ⟨linked', mates, below⟩ := facing.linked ref target here state
        obtain ⟨j, count, inner⟩ := shallow.link met (same ▸ state)
        have asked' := facing.isGeneric_eq below mates
        simp only [AbreastFrom, linked', asked']
        cases asked : p.store.isGeneric target with
        | error f => exact ⟨opening, Nat.le_refl _, rfl, facing.isGenericWithin_error below asked⟩
        | ok b =>
          cases b with
          | true => exact ih inner (by omega) (by omega) below mates (p, table) (p', table') opening
          | false =>
            -- nothing generic is behind the link, so the cell itself is shared with the instance
            have own := openable.shared ref target opening.grown here state asked
            exact ⟨opening, Nat.le_refl _, (Own.cell own).mono le⟩
      | generic =>
        have plain : ∀ target, p.store.state ref ≠ .linked target := by simp [state]
        have state' := (facing.state_plain here plain).trans state
        have id : (p'.store.cell (m.place ref)).id = κ (p.store.cell ref).id := by
          rw [facing.plain ref here plain]
        simp only [AbreastFrom, state', id]
        exact instanceOf_keeps marked openable.injective _ (p, table) (p', table') opening
      | unbound own =>
        have plain : ∀ target, p.store.state ref ≠ .linked target := by simp [state]
        have state' := (facing.state_plain here plain).trans state
        have own := openable.unbound ref own opening.grown here state
        simp only [AbreastFrom, state']
        exact ⟨opening, Nat.le_refl _, (Own.cell own).mono le⟩

theorem OwnLeaf.inside {N : Nat} (own : m.OwnLeaf N (.cell ref)) (le : m.size ≤ N) : ref < N := by
  rcases own with new | settled
  · exact new.2
  · obtain ⟨target, linked⟩ := settled.holds (.cell ref) List.mem_cons_self
    exact Nat.lt_of_lt_of_le (Store.lt_size_of_linked linked) le

theorem Twin.own_openable (twin : m.Twin p p') :
    m.Openable p.store m.number (m.OwnLeaf p.store.size) where
  injective := m.injective
  inside _ own := own.inside twin.size_le
  facing later grown := later.lies.own_facing grown.size
  unbound _ _ _ own _ := own
  shared _ _ _ own _ _ := own

theorem Twin.sealed_openable (twin : m.Twin p p') :
    m.Openable p.store id fun leaf => m.start.store.Sealed m.loose leaf.toTy := by
  refine ⟨Function.injective_id, fun ref closed => ?_, fun later _ => later.lies.sealed_facing,
    fun ref level grown closed free => ?_, fun ref target grown closed linked none => .inr ?_⟩
  · exact Nat.lt_of_lt_of_le (closed.holds _ Ty.cell_mem_leaves).1 twin.size_le
  · have same := (closed.same (twin.lies.grown.trans grown)).state Ty.cell_mem_leaves
    exact absurd (same ▸ free) ((closed.holds _ Ty.cell_mem_leaves).2 level)
  · have ext := twin.lies.grown.trans grown
    have linked : m.start.store.state ref = .linked target := by
      rw [← (closed.same ext).state Ty.cell_mem_leaves, linked]
    have below : m.start.store.Sealed m.loose target := closed.link Ty.cell_mem_leaves linked
    exact (below.settled ext none).cell linked

theorem Twin.instantiate (twin : m.Twin p p') (openable : m.Openable p.store κ good)
    (marked : level = linkLevel → m.loose) (all : ∀ leaf ∈ t.leaves, good leaf)
    (mates : m.Mates t t') :
    m.Twin (p.instantiate level t).2 (p'.instantiate level t').2 ∧
      p.store.size ≤ (p.instantiate level t).2.store.size ∧
      OrFault m.loose m.Own (p.instantiate level t).2.store.size (p.instantiate level t).1
        (p'.instantiate level t').1 := by
  have facing := openable.facing twin (Store.Extends.refl p.store)
  have room := facing.room
  have opening : m.Opening p.store κ (p, []) (p', []) := ⟨twin, .refl _, .nil⟩
  have enough : p.store.size < p.store.depth := Nat.lt_succ_self _
  have enough' : p.store.size < p'.store.depth := Nat.lt_succ_of_le room
  have keeps := instantiateWithin_keeps openable marked (facing.finite_of_leaves all).shallow enough
    enough' all mates
  obtain ⟨opening, le, result⟩ := keeps (p, []) (p', []) opening
  exact ⟨opening.twin, le, result⟩

structure Closing (m : Mirror) (s₀ : Store) (next next' : Int) (st st' : Store × Renaming) :
    Prop where
  twin : m.Twin ⟨st.1, next⟩ ⟨st'.1, next'⟩
  grown : s₀.Extends st.1
  tables : m.Tables st.1.size m.number st.2 st'.2

abbrev closingStep (m : Mirror) (s₀ : Store) (next next' : Int) :
    Lockstep (StateM (Store × Renaming)) (StateM (Store × Renaming)) :=
  .state (m.Closing s₀ next next') (fun st => st.1.size)

theorem genericFor_keeps {next next' id : Int} (made : m.Made s₀ id) :
    (m.closingStep s₀ next next').Keeps m.Own (Store.genericFor id)
      (Store.genericFor (m.number id)) := by
  rintro ⟨s, table⟩ ⟨s', table'⟩ closing
  rcases closing.tables.lookup m.injective id with ⟨none, none'⟩ | ⟨u, u', found, found', own⟩
  · have grown : s.Extends (s.alloc id .generic).2 := Store.extends_alloc _ _ _
    have twin := closing.twin.name (made.extend closing.grown)
    have le : m.size ≤ s.size := closing.twin.size_le
    have own : m.Own (s.alloc id .generic).2.size (.cell s.size) (.cell s'.size) := by
      have size : s'.size = s.size + m.gap := closing.twin.size
      rw [size, ← place_new le]
      exact .cell (.inl ⟨le, by rw [Store.size_alloc]; omega⟩)
    simp only [AbreastFrom, Store.genericFor, none, none']
    refine ⟨⟨twin, closing.grown.trans grown, ?_⟩, grown.size, own⟩
    exact .cons ⟨rfl, own⟩ (closing.tables.mono grown.size)
  · simp only [AbreastFrom, Store.genericFor, found, found']
    exact ⟨closing, Nat.le_refl _, own⟩

theorem generalizeWithin_keeps (level next next' : Int) (since : m.size ≤ s₀.size)
    (shallow : s₀.Shallow n t) (enough : n < k) (enough' : n < k')
    (all : ∀ leaf ∈ t.leaves, m.OwnLeaf s₀.size leaf) (mates : m.Mates t t') :
    (m.closingStep s₀ next next').Keeps m.Own (Store.generalizeWithin level k t)
      (Store.generalizeWithin level k' t') := by
  induction k generalizing n k' t t' with
  | zero => omega
  | succ k ih =>
    obtain ⟨k', rfl⟩ : ∃ j, k' = j + 1 := ⟨k' - 1, by omega⟩
    simp only [Store.generalizeWithin]
    rw [mates.replaceM fun leaf => by cases leaf <;> rfl]
    refine replaceM_lockstep _ Own.mono Own.node fun leaf met => ?_
    have here := all _ met
    cases leaf with
    | missing mark =>
      rintro ⟨s, table⟩ ⟨s', table'⟩ closing
      refine ⟨⟨closing.twin.mark, ?_, closing.tables⟩, Nat.le_refl _, rfl, fun leaf met => ?_⟩
      · exact closing.grown.trans (Store.extends_freshMissing s)
      · rw [List.mem_singleton.mp met]
        exact here
    | cell ref =>
      apply keeps_get
      rintro ⟨s, table⟩ ⟨s', table'⟩ closing
      have facing := closing.twin.lies.own_facing closing.grown.size
      have same : s.state ref = s₀.state ref := closing.grown.state (here.inside since)
      have le : s₀.size ≤ s.size := closing.grown.size
      cases state : s.state ref with
      | linked target =>
        obtain ⟨linked', mates, below⟩ := facing.linked ref target here state
        obtain ⟨j, count, inner⟩ := shallow.link met (same ▸ state)
        simp only [AbreastFrom, linked']
        exact ih inner (by omega) (by omega) below mates (s, table) (s', table') closing
      | generic =>
        have plain : ∀ target, s.state ref ≠ .linked target := by simp [state]
        have state' := (facing.state_plain here plain).trans state
        simp only [AbreastFrom, state']
        exact ⟨closing, Nat.le_refl _, (Own.cell here).mono le⟩
      | unbound own =>
        have plain : ∀ target, s.state ref ≠ .linked target := by simp [state]
        have state' := (facing.state_plain here plain).trans state
        have id : (s'.cell (m.place ref)).id = m.number (s.cell ref).id := by
          rw [facing.plain ref here plain]
        simp only [AbreastFrom, state', id]
        by_cases deeper : level < own
        -- the generic variable takes over a number, so no other number comes up in the run
        · have made : m.Made s₀ (s.cell ref).id := by
            rcases here with ⟨new, inside⟩ | settled
            · exact ⟨ref, new, inside, by rw [closing.grown.cell ref inside]⟩
            · obtain ⟨target, linked⟩ := settled.holds (.cell ref) List.mem_cons_self
              have old := Store.lt_size_of_linked linked
              rw [closing.twin.lies.grown.state old, linked] at state
              cases state
          simp only [deeper, if_true]
          exact genericFor_keeps made (s, table) (s', table') closing
        · simp only [deeper, if_false]
          exact ⟨closing, Nat.le_refl _, (Own.cell here).mono le⟩

theorem Twin.generalize (twin : m.Twin p p') (level : Int) (own : m.Own p.store.size t t') :
    m.Twin ⟨(p.store.generalize level t).2, p.nextId⟩ ⟨(p'.store.generalize level t').2, p'.nextId⟩ ∧
      p.store.size ≤ (p.store.generalize level t).2.size ∧
      m.Own (p.store.generalize level t).2.size (p.store.generalize level t).1
        (p'.store.generalize level t').1 := by
  have facing := twin.lies.own_facing (Nat.le_refl p.store.size)
  have room := facing.room
  have enough : p.store.size < p.store.depth := Nat.lt_succ_self _
  have enough' : p.store.size < p'.store.depth := Nat.lt_succ_of_le room
  have keeps := generalizeWithin_keeps level p.nextId p'.nextId twin.size_le
    (facing.finite_of_leaves own.own).shallow enough enough' own.own own.mates
  have closing : m.Closing p.store p.nextId p'.nextId (p.store, []) (p'.store, []) :=
    ⟨twin, .refl _, .nil⟩
  obtain ⟨closing, le, result⟩ := keeps (p.store, []) (p'.store, []) closing
  exact ⟨closing.twin, le, result⟩

end Mirror

end LetPoly
