import LetPoly.Proofs.Unification.Run

namespace LetPoly

structure Term.Regular (t : Term Atom) : Prop where
  present : .missing ∉ t.atoms
  distinct : ∀ head ∈ t.heads, head.Distinct

instance (t : Term Atom) : Decidable t.Regular :=
  decidable_of_iff (.missing ∉ t.atoms ∧ ∀ head ∈ t.heads, head.Distinct)
    ⟨fun h => ⟨h.1, h.2⟩, fun h => ⟨h.present, h.distinct⟩⟩

namespace Store

variable {s s' s'' : Store} {a b t : Ty} {ref : Nat} {level : Int} {θ : Substitution}
  {bound depth : Nat} {clash : UnifyError} {os : List Obligation} {e : Option UnifyError}

theorem throughout_regular (finite : ∀ t, s.Finite t) (regular : (s.view t).Regular) :
    s.Throughout Ty.Regular t := by
  induction finite t with
  | @intro t _ below ih =>
    have inside : ∀ leaf ∈ t.leaves, leaf ∈ t.tree.atoms := fun leaf member =>
      Ty.leaves_eq_atoms t ▸ member
    refine .intro ⟨fun mark member => ?_, fun head member => ?_⟩ fun ref target leaf linked => ?_
    · apply regular.present
      rw [view_eq_bind, Term.mem_atoms_bind]
      exact ⟨.missing mark, inside _ member, by simp [Leaf.toTy]⟩
    · apply regular.distinct
      rw [view_eq_bind, Term.mem_heads_bind]
      exact .inl member
    · have seen : s.view (Leaf.toTy (.cell ref)) = s.view target := view_linked (finite _) linked
      refine ih ref target leaf linked ⟨fun member => ?_, fun head member => ?_⟩
      · apply regular.present
        rw [view_eq_bind, Term.mem_atoms_bind]
        exact ⟨.cell ref, inside _ leaf, seen ▸ member⟩
      · apply regular.distinct
        rw [view_eq_bind, Term.mem_heads_bind]
        exact .inr ⟨.cell ref, inside _ leaf, seen ▸ member⟩

def Unifies (s : Store) (θ : Substitution) (a b : Ty) : Prop := s.reading θ a = s.reading θ b

theorem holds_single : (∀ o ∈ [Obligation.equal a b], o.Holds s θ) ↔ s.Unifies θ a b :=
  List.forall_mem_singleton

theorem holds_congr (same : ∀ t, s'.reading θ t = s.reading θ t) (o : Obligation) :
    o.Holds s' θ ↔ o.Holds s θ := by
  cases o with
  | equal a b => simp only [Obligation.holds_equal, same]
  | clash | fault => exact Iff.rfl

theorem Forward.holds (forward : s.Forward s') (acyclic : s.Acyclic) (acyclic' : s'.Acyclic)
    {o : Obligation} (all : ∀ θ, o.Holds s θ) (θ : Substitution) : o.Holds s' θ := by
  cases o with
  | equal a b =>
    rw [Obligation.holds_equal, forward.reading acyclic'.finite (acyclic.finite a),
      forward.reading acyclic'.finite (acyclic.finite b)]
    exact all _
  | clash | fault => exact all θ

/-- What has been done about some obligations: the store went on to one in which every substitution
    satisfies them, or none satisfies them at all. A substitution that satisfies them sees no
    difference between the two stores. -/
structure Outcome (clash : UnifyError) (bound : Nat) (os : List Obligation) (s s' : Store)
    (e : Option UnifyError) : Prop where
  forward : s.Forward s'
  wellFormed : s'.WellFormed
  bounded : s'.Bounded bound
  regular : ∀ t, s.Throughout Ty.Regular t → s'.Throughout Ty.Regular t
  respects : ∀ θ, (∀ o ∈ os, o.Holds s θ) → ∀ t, s'.reading θ t = s.reading θ t
  solved : e = none → ∀ θ, ∀ o ∈ os, o.Holds s' θ
  refuted : ∀ error, e = some error →
    (error = clash ∨ ∃ id t, error = .recursive id t) ∧ ∀ θ, ¬ ∀ o ∈ os, o.Holds s θ

namespace Outcome

theorem same (wf : s.WellFormed) (bounded : s.Bounded bound)
    (all : ∀ θ, ∀ o ∈ os, o.Holds s θ) : Outcome clash bound os s s none :=
  ⟨.refl s, wf, bounded, fun _ h => h, fun _ _ _ => rfl, fun _ => all, nofun⟩

theorem unchanged {error : UnifyError} (wf : s.WellFormed) (bounded : s.Bounded bound)
    (known : error = clash ∨ ∃ id t, error = .recursive id t)
    (none : ∀ θ, ¬ ∀ o ∈ os, o.Holds s θ) : Outcome clash bound os s s (some error) := by
  refine ⟨.refl s, wf, bounded, fun _ h => h, fun _ _ _ => rfl, nofun, ?_⟩
  rintro _ ⟨⟩
  exact ⟨known, none⟩

theorem congr {os' : List Obligation} (outcome : Outcome clash bound os s s' e)
    (same : ∀ s'', s.Forward s'' → s''.WellFormed → ∀ θ,
      (∀ o ∈ os, o.Holds s'' θ) ↔ ∀ o ∈ os', o.Holds s'' θ)
    (wf : s.WellFormed) : Outcome clash bound os' s s' e where
  forward := outcome.forward
  wellFormed := outcome.wellFormed
  bounded := outcome.bounded
  regular := outcome.regular
  respects θ holds := outcome.respects θ ((same s (.refl s) wf θ).mpr holds)
  solved ok θ := (same s' outcome.forward outcome.wellFormed θ).mp (outcome.solved ok θ)
  refuted error failed := by
    obtain ⟨known, none⟩ := outcome.refuted error failed
    exact ⟨known, fun θ holds => none θ ((same s (.refl s) wf θ).mpr holds)⟩

theorem cons {o : Obligation} (first : Outcome clash bound [o] s s' none)
    (rest : Outcome clash bound os s' s'' e) : Outcome clash bound (o :: os) s s'' e := by
  have before : ∀ θ, (∀ o' ∈ o :: os, o'.Holds s θ) →
      (∀ t, s'.reading θ t = s.reading θ t) ∧ ∀ o' ∈ os, o'.Holds s' θ := by
    intro θ holds
    obtain ⟨head, tail⟩ := List.forall_mem_cons.mp holds
    have same := first.respects θ (List.forall_mem_singleton.mpr head)
    exact ⟨same, fun o' member => (holds_congr same o').mpr (tail o' member)⟩
  refine ⟨first.forward.trans rest.forward, rest.wellFormed, rest.bounded,
    fun t h => rest.regular t (first.regular t h), ?_, ?_, ?_⟩
  · intro θ holds t
    obtain ⟨same, tail⟩ := before θ holds
    exact (rest.respects θ tail t).trans (same t)
  · intro ok θ
    refine List.forall_mem_cons.mpr ⟨?_, rest.solved ok θ⟩
    exact rest.forward.holds first.wellFormed.acyclic rest.wellFormed.acyclic
      (fun θ => List.forall_mem_singleton.mp (first.solved rfl θ)) θ
  · intro error failed
    obtain ⟨known, none⟩ := rest.refuted error failed
    exact ⟨known, fun θ holds => none θ (before θ holds).2⟩

theorem stop {o : Obligation} {error : UnifyError} (first : Outcome clash bound [o] s s' (some error)) :
    Outcome clash bound (o :: os) s s' (some error) := by
  have head : ∀ θ, (∀ o' ∈ o :: os, o'.Holds s θ) → ∀ o' ∈ [o], o'.Holds s θ := fun θ holds =>
    List.forall_mem_singleton.mpr (List.forall_mem_cons.mp holds).1
  obtain ⟨known, none⟩ := first.refuted error rfl
  refine ⟨first.forward, first.wellFormed, first.bounded, first.regular,
    fun θ holds => first.respects θ (head θ holds), nofun, ?_⟩
  rintro _ ⟨⟩
  exact ⟨known, fun θ holds => none θ (head θ holds)⟩

end Outcome

structure Ready (bound depth : Nat) (s : Store) (t : Ty) : Prop where
  regular : s.Throughout Ty.Regular t
  fits : Fits bound depth s t

namespace Ready

theorem part {head : Head} {parts : List Ty} (ready : Ready bound (depth + 1) s t)
    (top : t.node? = some (head, parts)) {part : Ty} (member : part ∈ parts) :
    Ready bound depth s part :=
  ⟨ready.regular.part top member (ready.regular.holds.part top member), ready.fits.part top member⟩

theorem head (ready : Ready bound depth s t) (bounded : s.Bounded bound) :
    Ready bound depth s (s.head t) :=
  ⟨ready.regular.head, ready.fits.head bounded⟩

theorem later (ready : Ready bound depth s t) (outcome : Outcome clash bound os s s' e) :
    Ready bound depth s' t :=
  ⟨outcome.regular t ready.regular, ready.fits.later outcome.forward⟩

end Ready

theorem discharge_outcome {step : Store → Ty → Ty → Store × Option UnifyError}
    (steps : ∀ s a b, s.WellFormed → s.Bounded bound → Ready bound depth s a →
      Ready bound depth s b → Outcome clash bound [.equal a b] s (step s a b).1 (step s a b).2)
    (wf : s.WellFormed) (bounded : s.Bounded bound)
    (ready : ∀ o ∈ os, o = .clash ∨
      ∃ a b, o = .equal a b ∧ Ready bound depth s a ∧ Ready bound depth s b) :
    Outcome clash bound os s (discharge step clash s os).1 (discharge step clash s os).2 := by
  induction os generalizing s with
  | nil => exact .same wf bounded (by simp)
  | cons o os ih =>
    obtain ⟨head, tail⟩ := List.forall_mem_cons.mp ready
    rcases head with rfl | ⟨a, b, rfl, readyA, readyB⟩
    · exact .unchanged wf bounded (.inl rfl) (by simp)
    · have first := steps s a b wf bounded readyA readyB
      cases run : step s a b with
      | mk s' e =>
        rw [run] at first
        cases e with
        | some error =>
          simp only [discharge, run]
          exact first.stop
        | none =>
          simp only [discharge, run]
          refine .cons first (ih first.wellFormed first.bounded fun o member => ?_)
          rcases tail o member with clash | ⟨a, b, same, readyA, readyB⟩
          · exact .inl clash
          · exact .inr ⟨a, b, same, readyA.later first, readyB.later first⟩

theorem bind_outcome (wf : s.WellFormed) (bounded : s.Bounded bound)
    (free : s.state ref = .unbound level) (different : t ≠ .cell ref)
    (unlinked : ∀ other target, t = .cell other → s.state other ≠ .linked target)
    (ready : Ready bound depth s t) :
    Outcome clash bound [.equal (.cell ref) t] s (s.bind ref level t).1 (s.bind ref level t).2 := by
  have finite := wf.acyclic.finite
  have present : t.isMissing = false := by
    cases t with
    | missing mark => exact absurd rfl (ready.regular.holds.ne_missing mark)
    | _ => rfl
  rcases bind_cases wf free present with ⟨reach, run⟩ | ⟨s', apart, binds, run⟩
  · rw [run]
    refine .unchanged wf bounded (.inr ⟨_, _, rfl⟩) fun θ holds => ?_
    rcases Ty.leaf_or_node t with ⟨leaf, rfl⟩ | ⟨head, parts, top⟩
    · -- a variable with no link is no type that reaches another one
      cases leaf with
      | missing mark => simp [Leaf.toTy, Ty.isMissing] at present
      | cell other =>
        have same := (reaches_plain (unlinked other · rfl)).mp reach
        exact different (congrArg Ty.cell same.symm)
    · exact reading_ne_of_reaches (finite t) top reach (holds_single.mp holds)
  · rw [run]
    have wf' := binds.wellFormed wf apart
    refine ⟨binds.forward, wf', binds.bounded bounded ready.fits.size, ?_, ?_, ?_,
      fun _ failed => by cases failed⟩
    · intro u regular
      exact binds.throughout apart ready.regular regular
    · intro θ holds
      exact binds.reading finite wf'.acyclic.finite (holds_single.mp holds)
    · rintro - θ
      exact holds_single.mpr (reading_linked (wf'.acyclic.finite _) binds.bound)

def Rigid (s : Store) (t : Ty) : Prop :=
  (∃ ref, t = .cell ref ∧ s.state ref = .generic) ∨ ∃ head parts, t.node? = some (head, parts)

theorem rigid_of_unbound?_eq_none (present : t.isMissing ≠ true) (rigid : s.unbound? t = none)
    (unlinked : ∀ ref target, t = .cell ref → s.state ref ≠ .linked target) : s.Rigid t := by
  rcases Ty.leaf_or_node t with ⟨leaf, rfl⟩ | node
  · cases leaf with
    | missing mark => exact absurd rfl present
    | cell ref =>
      cases state : s.state ref with
      | generic => exact .inl ⟨ref, rfl, state⟩
      | unbound level => simp [Leaf.toTy, unbound?, state] at rigid
      | linked target => exact absurd state (unlinked ref target rfl)
  · exact .inr node

theorem Rigid.generic (rigid : s.Rigid (.cell ref)) : s.state ref = .generic := by
  rcases rigid with ⟨_, ⟨⟩, generic⟩ | ⟨_, _, ⟨⟩⟩
  exact generic

theorem reading_generic_ne {head : Head} {parts : List Ty} (generic : s.state ref = .generic)
    (top : t.node? = some (head, parts)) : s.reading θ (.cell ref) ≠ s.reading θ t := by
  rw [reading_generic generic, reading_node top]
  cases head <;> simp [Head.arrange]

theorem tops_outcome {step : Store → Ty → Ty → Store × Option UnifyError}
    (steps : ∀ s a b, s.WellFormed → s.Bounded bound → Ready bound depth s a →
      Ready bound depth s b → Outcome clash bound [.equal a b] s (step s a b).1 (step s a b).2)
    (wf : s.WellFormed) (bounded : s.Bounded bound) (readyA : Ready bound (depth + 1) s a)
    (readyB : Ready bound (depth + 1) s b) (rigidA : s.Rigid a) (rigidB : s.Rigid b)
    (built : ∀ ref ref', a = .cell ref → b = .cell ref' → False) :
    Outcome clash bound [.equal a b] s (discharge step clash s (Obligation.ofTops a b)).1
      (discharge step clash s (Obligation.ofTops a b)).2 := by
  have mixed : (∀ θ, s.reading θ a ≠ s.reading θ b) →
      Outcome clash bound [.equal a b] s s (some clash) := fun differ =>
    .unchanged wf bounded (.inl rfl) fun θ holds => differ θ (holds_single.mp holds)
  rcases rigidA with ⟨ref, rfl, generic⟩ | ⟨headA, partsA, topA⟩ <;>
    rcases rigidB with ⟨ref', rfl, generic'⟩ | ⟨headB, partsB, topB⟩
  · exact (built ref ref' rfl rfl).elim
  · rw [Obligation.ofTops_cell_left ref topB]
    exact mixed fun θ => reading_generic_ne generic topB
  · rw [Obligation.ofTops_cell_right ref' topA]
    exact mixed fun θ => (reading_generic_ne generic' topA).symm
  · have parts : Outcome clash bound (Obligation.ofTops a b) s _ _ :=
      discharge_outcome steps wf bounded fun o member => by
      rcases Obligation.ofTops_parts topA topB readyA.regular.holds.present
        readyB.regular.holds.present member with clash | ⟨x, hx, y, hy, same⟩
      · exact .inl clash
      · exact .inr ⟨x, y, same, readyA.part topA hx, readyB.part topB hy⟩
    refine parts.congr (fun s'' _ _ θ => ?_) wf
    rw [holds_single]
    exact Obligation.ofTops_holds topA topB readyA.regular.holds readyB.regular.holds

theorem generic_outcome {ref' : Nat} (wf : s.WellFormed) (bounded : s.Bounded bound)
    (generic : s.state ref = .generic) (generic' : s.state ref' = .generic) (r : Store × Option UnifyError)
    (run : r = if (s.cell ref).id = (s.cell ref').id then (s, none) else (s, some clash)) :
    Outcome clash bound [.equal (.cell ref) (.cell ref')] s r.1 r.2 := by
  have reading : ∀ θ, s.Unifies θ (.cell ref) (.cell ref') ↔ (s.cell ref).id = (s.cell ref').id := by
    intro θ
    simp [Unifies, reading_generic generic, reading_generic generic']
  by_cases same : (s.cell ref).id = (s.cell ref').id
  · simp only [same, if_true] at run
    rw [run]
    exact .same wf bounded fun θ => holds_single.mpr ((reading θ).mpr same)
  · simp only [same, if_false] at run
    rw [run]
    exact .unchanged wf bounded (.inl rfl) fun θ holds =>
      same ((reading θ).mp (holds_single.mp holds))

theorem unifyWithin_outcome (clash : UnifyError) (bound depth : Nat) (s : Store) (a b : Ty)
    (wf : s.WellFormed) (bounded : s.Bounded bound) (readyA : Ready bound depth s a)
    (readyB : Ready bound depth s b) :
    Outcome clash bound [.equal a b] s (unifyWithin clash depth s a b).1
      (unifyWithin clash depth s a b).2 := by
  induction depth generalizing s a b with
  | zero => exact absurd (readyA.fits.height s (.refl s) wf.acyclic bounded) (Nat.not_lt_zero _)
  | succ depth steps =>
    have finite := wf.acyclic.finite
    -- it is enough to make the ends of the two chains equal
    suffices ends : Outcome clash bound [.equal (s.head a) (s.head b)] s
        (unifyWithin clash (depth + 1) s a b).1 (unifyWithin clash (depth + 1) s a b).2 by
      refine ends.congr (fun s'' forward wf'' θ => ?_) wf
      simp only [holds_single, Unifies, reading, forward.view_head wf''.acyclic.finite]
    have unlinkedA : ∀ ref target, s.head a = .cell ref → s.state ref ≠ .linked target :=
      fun _ _ => head_unlinked (finite a)
    have unlinkedB : ∀ ref target, s.head b = .cell ref → s.state ref ≠ .linked target :=
      fun _ _ => head_unlinked (finite b)
    have readyA := readyA.head bounded
    have readyB := readyB.head bounded
    simp only [unifyWithin]
    generalize s.head a = a at *
    generalize s.head b = b at *
    cases freeA : s.unbound? a with
    | some found =>
      obtain ⟨ref, level⟩ := found
      obtain ⟨rfl, free⟩ := unbound?_eq_some.mp freeA
      have bind : b ≠ .cell ref → Outcome clash bound [.equal (.cell ref) b] s
          (s.bind ref level b).1 (s.bind ref level b).2 :=
        fun different => bind_outcome wf bounded free different unlinkedB readyB
      cases freeB : s.unbound? b with
      | none =>
        apply bind
        rintro rfl
        simp [freeA] at freeB
      | some found =>
        obtain ⟨ref', level'⟩ := found
        obtain ⟨rfl, -⟩ := unbound?_eq_some.mp freeB
        by_cases same : ref = ref'
        · subst same
          simp only [if_true]
          exact .same wf bounded fun θ => holds_single.mpr rfl
        · simp only [same, if_false]
          exact bind fun h => same (Ty.cell.inj h).symm
    | none =>
      cases freeB : s.unbound? b with
      | some found =>
        obtain ⟨ref, level⟩ := found
        obtain ⟨rfl, free⟩ := unbound?_eq_some.mp freeB
        have different : a ≠ .cell ref := by
          rintro rfl
          simp [freeB] at freeA
        refine (bind_outcome wf bounded free different unlinkedA readyA).congr ?_ wf
        intro s'' _ _ θ
        simp only [holds_single]
        exact eq_comm
      | none =>
        have rigidA := rigid_of_unbound?_eq_none readyA.regular.holds.not_missing freeA unlinkedA
        have rigidB := rigid_of_unbound?_eq_none readyB.regular.holds.not_missing freeB unlinkedB
        dsimp only
        split
        · exact generic_outcome wf bounded rigidA.generic rigidB.generic _ rfl
        · rename_i built
          exact tops_outcome steps wf bounded readyA readyB rigidA rigidB built

/-- Solving computes a most general solution. It succeeds exactly if the two types have a common
    instance. In the store it leaves they are equal, and what it has bound holds of every solution:
    none can tell the two stores apart. It fails with a mismatch or an occurs check, and then there
    is no solution. -/
theorem unify_mostGeneral (wf : s.WellFormed) (regularA : (s.view a).Regular)
    (regularB : (s.view b).Regular) :
    ((s.unify a b).2 = none ↔ ∃ θ, s.Unifies θ a b) ∧
    ((s.unify a b).2 = none →
      ((s.unify a b).1.view a).canonical = ((s.unify a b).1.view b).canonical ∧
      s.Unifies (fun ref => (s.unify a b).1.view (.cell ref)) a b) ∧
    (∀ θ, s.Unifies θ a b → ∀ t, (s.unify a b).1.reading θ t = s.reading θ t) ∧
    ∀ error, (s.unify a b).2 = some error →
      (error = .mismatch a b ∨ ∃ id t, error = .recursive id t) ∧ ∀ θ, ¬ s.Unifies θ a b := by
  have small : s.Bounded (s.weight + a.size + b.size) := by
    intro ref target linked
    have written := size_le_weight linked
    omega
  have outcome := unifyWithin_outcome (.mismatch a b) _ (s.unifyDepth a b) s a b wf small
    ⟨throughout_regular wf.acyclic.finite regularA, fits_of_bounded s (by omega)⟩
    ⟨throughout_regular wf.acyclic.finite regularB, fits_of_bounded s (by omega)⟩
  change Outcome _ _ _ s (s.unify a b).1 (s.unify a b).2 at outcome
  have finite' := outcome.wellFormed.acyclic.finite
  have refuted : ∀ error, (s.unify a b).2 = some error → ∀ θ, ¬ s.Unifies θ a b :=
    fun error failed θ unifies => (outcome.refuted error failed).2 θ (holds_single.mpr unifies)
  have solved : (s.unify a b).2 = none → ∀ θ, (s.unify a b).1.Unifies θ a b :=
    fun ok θ => holds_single.mp (outcome.solved ok θ)
  have bindings : (s.unify a b).2 = none →
      s.Unifies (fun ref => (s.unify a b).1.view (.cell ref)) a b := by
    intro ok
    have equal := solved ok fun ref => .atom (.var ref)
    rw [Unifies, outcome.forward.reading finite' (wf.acyclic.finite a),
      outcome.forward.reading finite' (wf.acyclic.finite b)] at equal
    simpa only [Unifies, Term.subst_var] using equal
  refine ⟨⟨fun ok => ⟨_, bindings ok⟩, ?_⟩, fun ok => ⟨?_, bindings ok⟩, ?_, ?_⟩
  · rintro ⟨θ, unifies⟩
    cases failed : (s.unify a b).2 with
    | none => rfl
    | some error => exact absurd unifies (refuted error failed θ)
  · simpa only [Unifies, reading, Term.subst_var] using solved ok fun ref => .atom (.var ref)
  · intro θ unifies
    exact outcome.respects θ (holds_single.mpr unifies)
  · intro error failed
    exact ⟨(outcome.refuted error failed).1, refuted error failed⟩

def aliased : Store :=
  { cells := #[⟨1, .unbound 1⟩, ⟨2, .unbound 1⟩, ⟨3, .linked (.cell 1)⟩, ⟨4, .generic⟩] }

theorem aliased_wellFormed : aliased.WellFormed := by
  refine ⟨acyclic_of_descending ?_, ?_, ?_⟩
  · rintro (_ | _ | _ | _ | ref) next ⟨target, linked, leaf⟩
    all_goals cases linked
    simp only [Ty.leaves, List.mem_singleton, Leaf.cell.injEq] at leaf
    omega
  · rintro (_ | _ | _ | _ | ref) (_ | _ | _ | _ | other) _ _ ⟨⟩ ⟨⟩ same
    all_goals first | rfl | cases same
  · rintro (_ | _ | _ | _ | ref) level ⟨⟩
    all_goals decide

theorem unify_mostGeneral_aliased :
    let a := Ty.fn [.cell 0, .cell 3] (.record [("x", .cell 2), ("y", .int)])
    let b := Ty.fn [.list (.cell 2), .cell 3] (.record [("y", .cell 1), ("x", .int)])
    aliased.WellFormed ∧ (aliased.view a).Regular ∧ (aliased.view b).Regular ∧
      (aliased.unify a b).2 = none ∧ (∃ θ, aliased.Unifies θ a b) ∧
      ∀ θ, aliased.Unifies θ a b → ∀ t, (aliased.unify a b).1.reading θ t = aliased.reading θ t := by
  intro a b
  have regularA : (aliased.view a).Regular := by decide
  have regularB : (aliased.view b).Regular := by decide
  have ok : (aliased.unify a b).2 = none := rfl
  obtain ⟨solvable, -, respects, -⟩ := unify_mostGeneral aliased_wellFormed regularA regularB
  exact ⟨aliased_wellFormed, regularA, regularB, ok, solvable.mp ok, respects⟩

end Store

end LetPoly
