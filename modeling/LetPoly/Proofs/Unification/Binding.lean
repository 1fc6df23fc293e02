import LetPoly.Proofs.Traversal
import LetPoly.Proofs.Unification.Obligations

namespace LetPoly.Store

variable {s s' s'' : Store} {t u target : Ty} {ref other : Nat} {level : Int} {θ : Substitution}
  {P : Ty → Prop}

def Distinct (s : Store) : Prop :=
  ∀ ⦃ref other level level'⦄, s.state ref = .unbound level → s.state other = .unbound level' →
    (s.cell ref).id = (s.cell other).id → ref = other

def Unmarked (s : Store) : Prop :=
  ∀ {ref level}, s.state ref = .unbound level → level ≠ genericLevel ∧ level ≠ linkLevel

/-- A heap that types can be solved over: links do not come back, different unbound variables have
    different numbers, and the levels that mark a state are no levels of unbound variables. -/
structure WellFormed (s : Store) : Prop where
  acyclic : s.Acyclic
  distinct : s.Distinct
  unmarked : s.Unmarked

/-- Cells keep their numbers and their links, and an unbound variable can only come down or be
    bound. -/
structure Forward (s s' : Store) : Prop where
  size : s'.size = s.size
  id : ∀ ref, (s'.cell ref).id = (s.cell ref).id
  linked : ∀ {ref target}, s.state ref = .linked target → s'.state ref = .linked target
  generic : ∀ {ref}, s.state ref = .generic → s'.state ref = .generic
  unbound : ∀ {ref level}, s.state ref = .unbound level →
    (∃ lower, lower ≤ level ∧ s'.state ref = .unbound lower) ∨
      ∃ target, s'.state ref = .linked target

theorem Forward.refl (s : Store) : s.Forward s :=
  ⟨rfl, fun _ => rfl, fun h => h, fun h => h, fun h => .inl ⟨_, Int.le_refl _, h⟩⟩

theorem Forward.trans (first : s.Forward s') (second : s'.Forward s'') : s.Forward s'' where
  size := second.size.trans first.size
  id ref := (second.id ref).trans (first.id ref)
  linked h := second.linked (first.linked h)
  generic h := second.generic (first.generic h)
  unbound h := by
    rcases first.unbound h with ⟨lower, le, h⟩ | ⟨target, h⟩
    · rcases second.unbound h with ⟨lowest, le', h⟩ | bound
      · exact .inl ⟨lowest, Int.le_trans le' le, h⟩
      · exact .inr bound
    · exact .inr ⟨target, second.linked h⟩

theorem Forward.free_before (forward : s.Forward s') (free : s'.state ref = .unbound level) :
    ∃ before, s.state ref = .unbound before := by
  cases state : s.state ref with
  | unbound before => exact ⟨before, rfl⟩
  | generic =>
    rw [forward.generic state] at free
    cases free
  | linked target =>
    rw [forward.linked state] at free
    cases free

theorem Forward.view (forward : s.Forward s') (finite' : ∀ t, s'.Finite t) (finite : s.Finite t) :
    s'.view t = (s.view t).subst fun ref => s'.view (.cell ref) := by
  induction finite using Finite.induction with
  | missing mark => simp [Atom.subst]
  | plain ref finite plain =>
    cases state : s.state ref with
    | linked target => exact absurd state (plain target)
    | unbound level => simp [view_unbound state, Atom.subst]
    | generic =>
      simp [view_generic state, view_generic (forward.generic state), forward.id, Atom.subst]
  | linked ref target finite linked ih =>
    rw [view_linked finite linked, view_linked (finite' _) (forward.linked linked), ih]
  | node t head parts finite top ih =>
    rw [view_node top, view_node top, Term.subst_node, List.map_map, List.map_congr_left ih]
    rfl

theorem Forward.reading (forward : s.Forward s') (finite' : ∀ t, s'.Finite t) (finite : s.Finite t) :
    s'.reading θ t = s.reading (fun ref => (s'.view (.cell ref)).subst θ) t := by
  rw [Store.reading, forward.view finite' finite, Term.subst_subst, Store.reading]

structure Binds (s : Store) (ref : Nat) (t : Ty) (s' : Store) : Prop where
  size : s'.size = s.size
  id : ∀ other, (s'.cell other).id = (s.cell other).id
  free : ∃ level, s.state ref = .unbound level
  bound : s'.state ref = .linked t
  others : ∀ other, other ≠ ref → s'.state other = s.state other ∨
    ∃ level lower, s.state other = .unbound level ∧ lower ≤ level ∧
      (lower ≠ genericLevel ∧ lower ≠ linkLevel) ∧ s'.state other = .unbound lower

namespace Binds

theorem linked_iff (binds : s.Binds ref t s') (different : other ≠ ref) :
    s'.state other = .linked target ↔ s.state other = .linked target := by
  rcases binds.others other different with same | ⟨level, lower, free, _, _, lowered⟩
  · rw [same]
  · simp [free, lowered]

theorem forward (binds : s.Binds ref t s') : s.Forward s' := by
  obtain ⟨own, free⟩ := binds.free
  refine ⟨binds.size, binds.id, ?_, ?_, ?_⟩
  · intro other target linked
    have different : other ≠ ref := by
      rintro rfl
      simp [free] at linked
    exact (binds.linked_iff different).mpr linked
  · intro other generic
    have different : other ≠ ref := by
      rintro rfl
      simp [free] at generic
    rcases binds.others other different with same | ⟨level, lower, unbound, _⟩
    · exact same.trans generic
    · simp [generic] at unbound
  · intro other level unbound
    by_cases different : other = ref
    · subst different
      exact .inr ⟨t, binds.bound⟩
    · rcases binds.others other different with same | ⟨level', lower, unbound', le, _, lowered⟩
      · exact .inl ⟨level, Int.le_refl _, same.trans unbound⟩
      · rw [unbound] at unbound'
        cases unbound'
        exact .inl ⟨lower, le, lowered⟩

theorem throughout_apart (binds : s.Binds ref t s') (all : s.Throughout P u)
    (apart : ¬ s.Reaches u ref) : s'.Throughout P u := by
  induction all with
  | @intro u here below ih =>
    refine .intro here fun other target leaf linked => ?_
    have different : other ≠ ref := by
      rintro rfl
      exact apart (.here leaf)
    have before := (binds.linked_iff different).mp linked
    exact ih other target leaf before fun reach => apart (.through leaf before reach)

theorem throughout (binds : s.Binds ref t s') (apart : ¬ s.Reaches t ref)
    (target : s.Throughout P t) (all : s.Throughout P u) : s'.Throughout P u := by
  have after := binds.throughout_apart target apart
  induction all with
  | @intro u here below ih =>
    refine .intro here fun other aim leaf linked => ?_
    by_cases same : other = ref
    · subst same
      rw [binds.bound] at linked
      cases linked
      exact after
    · exact ih other aim leaf ((binds.linked_iff same).mp linked)

theorem acyclic (binds : s.Binds ref t s') (acyclic : s.Acyclic) (apart : ¬ s.Reaches t ref) :
    s'.Acyclic :=
  acyclic_of_finite fun u => binds.throughout apart (acyclic.finite t) (acyclic.finite u)

theorem wellFormed (binds : s.Binds ref t s') (wf : s.WellFormed) (apart : ¬ s.Reaches t ref) :
    s'.WellFormed := by
  have kept : ∀ {other level}, s'.state other = .unbound level →
      (∃ before, s.state other = .unbound before) ∧ level ≠ genericLevel ∧ level ≠ linkLevel := by
    intro other level unbound
    have different : other ≠ ref := by
      rintro rfl
      simp [binds.bound] at unbound
    rcases binds.others other different with same | ⟨before, lower, free, _, unmarked, lowered⟩
    · rw [same] at unbound
      exact ⟨⟨level, unbound⟩, wf.unmarked unbound⟩
    · rw [lowered] at unbound
      cases unbound
      exact ⟨⟨before, free⟩, unmarked⟩
  refine ⟨binds.acyclic wf.acyclic apart, ?_, fun unbound => (kept unbound).2⟩
  intro left right _ _ unbound unbound' same
  obtain ⟨_, free⟩ := (kept unbound).1
  obtain ⟨_, free'⟩ := (kept unbound').1
  rw [binds.id, binds.id] at same
  exact wf.distinct free free' same

theorem reading (binds : s.Binds ref t s') (finite : ∀ u, s.Finite u) (finite' : ∀ u, s'.Finite u)
    (solved : s.reading θ (.cell ref) = s.reading θ t) (u : Ty) :
    s'.reading θ u = s.reading θ u := by
  induction finite' u using Finite.induction with
  | missing mark => rw [reading_missing, reading_missing]
  | plain other finite' plain =>
    have different : other ≠ ref := by
      rintro rfl
      exact plain t binds.bound
    rcases binds.others other different with same | ⟨level, lower, free, _, _, lowered⟩
    · cases state : s.state other with
      | linked target => exact absurd (same.trans state) (plain target)
      | unbound level => rw [reading_unbound state, reading_unbound (same.trans state)]
      | generic => rw [reading_generic state, reading_generic (same.trans state), binds.id]
    · rw [reading_unbound free, reading_unbound lowered]
  | linked other target finite' linked ih =>
    rw [reading_linked finite' linked, ih]
    by_cases same : other = ref
    · subst same
      rw [binds.bound] at linked
      cases linked
      exact solved.symm
    · rw [reading_linked (finite _) ((binds.linked_iff same).mp linked)]
  | node u head parts finite' top ih =>
    rw [reading_node top, reading_node top, List.map_congr_left ih]

end Binds

/-- One unbound variable has been bound to a type that does not lead back to it. The unbound
    variables of the type have come down to its level, and all others are as they were. -/
structure Ties (s : Store) (ref : Nat) (level : Int) (t : Ty) (s' : Store) : Prop where
  free : s.state ref = .unbound level
  apart : ¬ s.Reaches t ref
  size : s'.size = s.size
  id : ∀ other, (s'.cell other).id = (s.cell other).id
  bound : s'.state ref = .linked t
  lowered : ∀ other, s.Reaches t other → s'.state other = (s.state other).lower level
  kept : ∀ other, other ≠ ref → ¬ s.Reaches t other → s'.state other = s.state other

theorem Lowers.ties (lowers : Lowers level (s.Reaches t) s s') (free : s.state ref = .unbound level)
    (apart : ¬ s.Reaches t ref) : s.Ties ref level t (s'.setState ref (.linked t)) := by
  have inside : ref < s'.size := lowers.size ▸ lt_size_of_unbound free
  have others : ∀ other, other ≠ ref → (s'.setState ref (.linked t)).state other = s'.state other := by
    intro other different
    rw [state, cell_setState_ne _ _ different.symm, state]
  refine ⟨free, apart, (size_setState _ _ _).trans lowers.size, fun other => ?_, ?_, ?_, ?_⟩
  · rw [← lowers.id other]
    by_cases same : ref = other
    · subst same
      rw [cell_setState_self _ _ inside]
    · rw [cell_setState_ne _ _ same]
  · rw [state, cell_setState_self _ _ inside]
  · intro other reach
    have different : other ≠ ref := by
      rintro rfl
      exact apart reach
    rw [others other different, lowers.lowered other reach]
  · intro other different unmet
    rw [others other different, lowers.kept other unmet]

theorem Ties.binds (ties : s.Ties ref level t s') (unmarked : s.Unmarked) : s.Binds ref t s' := by
  refine ⟨ties.size, ties.id, ⟨level, ties.free⟩, ties.bound, fun other different => ?_⟩
  by_cases reach : s.Reaches t other
  · have after := ties.lowered other reach
    cases state : s.state other with
    | unbound own =>
      rw [state, VarState.lower] at after
      refine .inr ⟨own, min level own, rfl, Int.min_le_right _ _, ?_, after⟩
      rcases Int.le_total level own with le | le
      · rw [Int.min_eq_left le]
        exact unmarked ties.free
      · rw [Int.min_eq_right le]
        exact unmarked state
    | generic | linked =>
      rw [state] at after
      exact .inl after
  · exact .inl (ties.kept other different reach)

theorem bind_ties (unmarked : s.Unmarked) (free : s.state ref = .unbound level) (t : Ty) :
    ((∃ other own, s.Reaches t other ∧ s.state other = .unbound own ∧
        (s.cell other).id = (s.cell ref).id) ∧
      s.bind ref level t = (s, some (.recursive (s.cell ref).id t))) ∨
    (t.isMissing = true ∧ s.bind ref level t = (s, some (.fault (.linkedToMissing (s.cell ref).id)))) ∨
    ∃ s', s.Ties ref level t s' ∧ s.bind ref level t = (s', none) := by
  cases met : s.occurs (s.cell ref).id t with
  | true => exact .inl ⟨occurs_iff.mp met, by simp only [bind, met, if_true]⟩
  | false =>
    right
    have apart : ¬ s.Reaches t ref := by
      intro reach
      have found : s.occurs (s.cell ref).id t = true :=
        occurs_iff.mpr ⟨ref, level, reach, free, rfl⟩
      rw [met] at found
      cases found
    have lowers := adjustLevels_lowers (unmarked free) s t
    have still : (s.adjustLevels level t).state ref = .unbound level := by
      rw [lowers.kept ref apart, free]
    by_cases missing : t.isMissing = true
    · left
      refine ⟨missing, ?_⟩
      have idle : s.adjustLevels level t = s := by
        cases t with
        | missing mark => rfl
        | _ => cases missing
      rw [idle] at still
      simp only [bind, met, idle, setLink, still, missing, Bool.false_eq_true, if_false, if_true]
    · right
      refine ⟨_, lowers.ties free apart, ?_⟩
      simp only [bind, met, setLink, still, missing, Bool.false_eq_true, if_false]

theorem bind_cases (wf : s.WellFormed) (free : s.state ref = .unbound level)
    (present : t.isMissing = false) :
    (s.Reaches t ref ∧ s.bind ref level t = (s, some (.recursive (s.cell ref).id t))) ∨
      ∃ s', ¬ s.Reaches t ref ∧ s.Binds ref t s' ∧ s.bind ref level t = (s', none) := by
  rcases bind_ties wf.unmarked free t with ⟨⟨other, own, reach, free', same⟩, run⟩ | ⟨missing, -⟩ |
    ⟨s', ties, run⟩
  · rw [wf.distinct free' free same] at reach
    exact .inl ⟨reach, run⟩
  · rw [present] at missing
    cases missing
  · exact .inr ⟨s', ties.apart, ties.binds wf.unmarked, run⟩

end LetPoly.Store
