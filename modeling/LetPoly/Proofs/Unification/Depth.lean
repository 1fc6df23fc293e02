import LetPoly.Proofs.Unification.Binding

namespace LetPoly.Store

variable {s s' : Store} {t u target : Ty} {ref other : Nat} {n m bound : Nat} {θ : Substitution}

theorem Forward.view_head (forward : s.Forward s') (finite' : ∀ t, s'.Finite t) (t : Ty) :
    s'.view (s.head t) = s'.view t := by
  apply head_closed (Q := fun u => s'.view u = s'.view t)
  · intro ref target linked same
    rw [← same, view_linked (finite' _) (forward.linked linked)]
  · rfl

def Bounded (s : Store) (bound : Nat) : Prop :=
  ∀ ref target, s.state ref = .linked target → target.size ≤ bound

theorem size_le_weight (linked : s.state ref = .linked target) : target.size ≤ s.weight := by
  have inside := lt_size_of_linked linked
  have member : s.cell ref ∈ s.cells.toList := by
    simp only [size] at inside
    simp [cell, Array.getElem?_eq_getElem inside]
  have size : (s.cell ref).state.size = target.size := by
    change (s.state ref).size = _
    rw [linked]
    rfl
  have total : s.weight = (s.cells.toList.map fun cell => cell.state.size).sum := by
    rw [weight, List.sum_eq_foldr, List.foldr_map]
  rw [total, ← size]
  exact List.le_sum_of_mem (List.mem_map_of_mem member)

theorem bounded_weight (s : Store) (a b : Ty) : s.Bounded (s.weight + a.size + b.size) := by
  intro ref target linked
  have written := size_le_weight linked
  omega

theorem Binds.bounded (binds : s.Binds ref t s') (bounded : s.Bounded bound)
    (small : t.size ≤ bound) : s'.Bounded bound := by
  intro other target linked
  by_cases same : other = ref
  · subst same
    rw [binds.bound] at linked
    cases linked
    exact small
  · exact bounded other target ((binds.linked_iff same).mp linked)

theorem height_view_le (leaves : ∀ leaf ∈ t.leaves, (s.view leaf.toTy).height ≤ n) :
    (s.view t).height ≤ t.size + n := by
  induction t using Ty.partsInduction with
  | leaf leaf => exact Nat.le_trans (leaves leaf (by simp)) (Nat.le_add_left _ _)
  | node t head parts top ih =>
    obtain ⟨below, size⟩ : ∃ below, t.size = below + 1 := ⟨_, Ty.size_of_node top⟩
    rw [view_node top, size, Nat.add_right_comm]
    apply Term.height_node_le
    rintro _ shown
    obtain ⟨part, member, rfl⟩ := List.mem_map.mp shown
    have smaller := Ty.size_lt_of_part top member
    have part_le := ih part member fun leaf inside =>
      leaves leaf (Ty.leaves_part_subset top member inside)
    omega

theorem height_view_le_links (bounded : s.Bounded bound) (finite : ∀ t, s.Finite t)
    (shallow : s.Shallow n t) (small : t.size ≤ bound) : (s.view t).height ≤ (n + 1) * bound := by
  -- what a path passes between two links is written in one type
  have written : ∀ n t, s.Shallow n t → t.size ≤ bound →
      (∀ leaf ∈ t.leaves, (s.view leaf.toTy).height ≤ n * bound) := by
    intro n
    induction n with
    | zero =>
      intro t shallow small leaf member
      cases leaf with
      | missing mark => simp [Leaf.toTy]
      | cell ref =>
        cases state : s.state ref with
        | linked target => exact absurd state (shallow ref target member)
        | unbound level => simp [Leaf.toTy, view_unbound state]
        | generic => simp [Leaf.toTy, view_generic state]
    | succ n ih =>
      intro t shallow small leaf member
      cases leaf with
      | missing mark => simp [Leaf.toTy]
      | cell ref =>
        cases state : s.state ref with
        | linked target =>
          have fits := bounded ref target state
          have target_le := height_view_le (ih target (shallow ref target member state) fits)
          rw [Leaf.toTy, view_linked (finite _) state, Nat.add_mul, Nat.one_mul]
          omega
        | unbound level => simp [Leaf.toTy, view_unbound state]
        | generic => simp [Leaf.toTy, view_generic state]
  have height := height_view_le (written n t shallow small)
  rw [Nat.add_mul, Nat.one_mul]
  omega

/-- Whatever is bound from now on, no path down the type is as long as `depth`, if only types up to
    a size are bound. -/
structure Fits (bound depth : Nat) (s : Store) (t : Ty) : Prop where
  size : t.size ≤ bound
  height : ∀ s', s.Forward s' → s'.Acyclic → s'.Bounded bound → (s'.view t).height < depth

namespace Fits

variable {depth : Nat}

theorem later (fits : Fits bound depth s t) (forward : s.Forward s') : Fits bound depth s' t :=
  ⟨fits.size, fun s'' rest => fits.height s'' (forward.trans rest)⟩

theorem part {head : Head} {parts : List Ty} (fits : Fits bound (depth + 1) s t)
    (top : t.node? = some (head, parts)) {part : Ty} (member : part ∈ parts) :
    Fits bound depth s part := by
  refine ⟨Nat.le_trans (Nat.le_of_lt (Ty.size_lt_of_part top member)) fits.size, ?_⟩
  intro s' forward acyclic bounded
  have whole := fits.height s' forward acyclic bounded
  rw [view_node top] at whole
  have below : (s'.view part).height < (Term.node head (parts.map s'.view)).height :=
    Term.height_lt_of_mem (List.mem_map_of_mem member)
  omega

theorem head (fits : Fits bound depth s t) (bounded : s.Bounded bound) :
    Fits bound depth s (s.head t) := by
  refine ⟨head_closed (fun ref target linked _ => bounded ref target linked) fits.size, ?_⟩
  intro s' forward acyclic bounded'
  rw [forward.view_head acyclic.finite]
  exact fits.height s' forward acyclic bounded'

end Fits

/-- A path enters a cell at most once, so the size of the store bounds its length. -/
theorem fits_of_bounded (s : Store) (small : t.size ≤ bound) :
    Fits bound ((s.size + 1) * bound + 1) s t := by
  refine ⟨small, fun s' forward acyclic bounded => ?_⟩
  have height := height_view_le_links bounded acyclic.finite (acyclic.finite t).shallow small
  rw [forward.size] at height
  omega

theorem reading_parts {head : Head} {parts : List Ty} (top : t.node? = some (head, parts)) :
    ∃ head args, s.reading θ t = .node head args ∧ args.Perm (parts.map (s.reading θ)) := by
  have row : ∀ row : Row, ((byLabel (row.map (Prod.map id (s.reading θ)))).map Prod.snd).Perm
      ((row.map Prod.snd).map (s.reading θ)) := by
    intro row
    have sorted := (byLabel_perm (row.map (Prod.map id (s.reading θ)))).map Prod.snd
    rw [List.map_map] at sorted ⊢
    exact sorted
  rw [reading_node top]
  cases t <;> cases top
  case record => exact ⟨_, _, rfl, Obligation.zip_reading (s := s) _ ▸ row _⟩
  case signature => exact ⟨_, _, rfl, Obligation.zip_reading (s := s) _ ▸ row _⟩
  all_goals exact ⟨_, _, rfl, .refl _⟩

theorem height_reading_part {head : Head} {parts : List Ty} (top : t.node? = some (head, parts))
    {part : Ty} (member : part ∈ parts) : (s.reading θ part).height < (s.reading θ t).height := by
  obtain ⟨_, args, same, perm⟩ := reading_parts (s := s) (θ := θ) top
  rw [same]
  exact Term.height_lt_of_mem (perm.symm.subset (List.mem_map_of_mem member))

theorem height_reading_le (finite : s.Finite t) (reach : s.Reaches t ref) :
    (s.reading θ (.cell ref)).height ≤ (s.reading θ t).height := by
  induction finite using Finite.induction with
  | missing mark =>
    cases reach with
    | here leaf => simp [Ty.leaves] at leaf
    | through leaf => simp [Ty.leaves] at leaf
  | plain other finite plain => rw [(reaches_plain plain).mp reach]
  | linked other target finite linked ih =>
    rcases (reaches_linked linked).mp reach with rfl | reach
    · exact Nat.le_refl _
    · rw [reading_linked finite linked]
      exact ih reach
  | node t head parts finite top ih =>
    obtain ⟨part, member, reach⟩ := (reaches_node top).mp reach
    exact Nat.le_trans (ih part member reach) (Nat.le_of_lt (height_reading_part top member))

theorem reading_ne_of_reaches {head : Head} {parts : List Ty} (finite : s.Finite t)
    (top : t.node? = some (head, parts)) (reach : s.Reaches t ref) :
    s.reading θ (.cell ref) ≠ s.reading θ t := by
  intro same
  obtain ⟨part, member, reach⟩ := (reaches_node top).mp reach
  have below := height_reading_le (θ := θ) (finite.part top member) reach
  have above := height_reading_part (s := s) (θ := θ) top member
  rw [same] at below
  omega

end LetPoly.Store
