import LetPoly.Proofs.Unification.Endings
import LetPoly.Proofs.Unification.MostGeneral

namespace LetPoly.Store

variable {s s' : Store} {a b t target : Ty} {ref : Nat} {θ : Substitution} {bound depth : Nat}
  {clash : UnifyError} {os : List Obligation}

def surface (s : Store) (θ : Substitution) (t : Ty) : Term Atom := ((s.view t).subst θ).surface

/-- The same can be seen of the two types: they are equal once links are followed, where a row is its
    leftmost fields, their order does not count, and neither does the visibility of a name. -/
def SameSurface (s : Store) (a b : Ty) : Prop := (s.view a).surface = (s.view b).surface

theorem surface_of_node {head : Head} {parts : List Ty} (top : t.node? = some (head, parts)) :
    s.surface θ t = head.surface (parts.map (s.surface θ)) := by
  simp only [surface, view_node top, Term.subst_node, Term.surface_node, List.map_map]
  rfl

theorem surface_var (s : Store) (t : Ty) :
    s.surface (fun ref => .atom (.var ref)) t = (s.view t).surface := by
  rw [surface, Term.subst_var]

theorem surface_head (finite : ∀ t, s.Finite t) (t : Ty) :
    (s.view (s.head t)).surface = (s.view t).surface := by
  rw [(Forward.refl s).view_head finite]

theorem Forward.surface (forward : s.Forward s') (finite' : ∀ t, s'.Finite t) (finite : ∀ t, s.Finite t)
    (same : ∀ θ, s.surface θ a = s.surface θ b) (θ : Substitution) :
    s'.surface θ a = s'.surface θ b := by
  rw [Store.surface, Store.surface, forward.view finite' (finite a), forward.view finite' (finite b),
    Term.subst_subst, Term.subst_subst]
  exact same _

theorem throughout_present (finite : ∀ t, s.Finite t) (present : .missing ∉ (s.view t).atoms) :
    s.Throughout Ty.Present t := by
  induction finite t with
  | @intro t _ below ih =>
    have inside : ∀ leaf ∈ t.leaves, .missing ∉ (s.view leaf.toTy).atoms := by
      intro leaf member missing
      rw [view_eq_bind, Term.mem_atoms_bind, ← Ty.leaves_eq_atoms] at present
      exact present ⟨leaf, member, missing⟩
    refine .intro (fun mark member => ?_) fun ref target leaf linked => ?_
    · exact inside (.missing mark) member (by simp [Leaf.toTy])
    · refine ih ref target leaf linked ?_
      have seen := inside (.cell ref) leaf
      rwa [Leaf.toTy, view_linked (finite _) linked] at seen

theorem Throughout.present_part {head : Head} {parts : List Ty} (all : s.Throughout Ty.Present t)
    (top : t.node? = some (head, parts)) {part : Ty} (member : part ∈ parts) :
    s.Throughout Ty.Present part :=
  all.part top member (all.holds.part top member)

theorem ofTops_surface {headA headB : Head} {partsA partsB : List Ty}
    (topA : a.node? = some (headA, partsA)) (topB : b.node? = some (headB, partsB))
    (presentA : a.Present) (presentB : b.Present) :
    (∀ o ∈ Obligation.ofTops a b, o.Agrees (s.surface θ)) ↔ s.surface θ a = s.surface θ b :=
  Obligation.ofTops_agrees topA topB (fun _ member => (presentA.part topA member).not_missing)
    (fun _ member => (presentB.part topB member).not_missing) (surface_of_node topA)
    (surface_of_node topB)

/-- How two types meet whose chains end at no missing type, and what solving does then. -/
inductive Meeting (s : Store) (a b : Ty) : Prop
  | same (view : s.view a = s.view b)
    (run : ∀ clash depth, unifyWithin clash (depth + 1) s a b = (s, none))
  | differ (surface : ¬ s.SameSurface a b)
    (run : ∀ clash depth, unifyWithin clash (depth + 1) s a b = (s, some clash))
  | left {ref : Nat} {level : Int} (top : s.head a = .cell ref)
    (free : s.state ref = .unbound level) (surface : ¬ s.SameSurface a b)
    (run : ∀ clash depth, unifyWithin clash (depth + 1) s a b = s.bind ref level (s.head b))
  | right {ref : Nat} {level : Int} (top : s.head b = .cell ref)
    (free : s.state ref = .unbound level) (surface : ¬ s.SameSurface a b)
    (run : ∀ clash depth, unifyWithin clash (depth + 1) s a b = s.bind ref level (s.head a))
  | parts {headA headB : Head} {partsA partsB : List Ty}
    (topA : (s.head a).node? = some (headA, partsA)) (topB : (s.head b).node? = some (headB, partsB))
    (run : ∀ clash depth, unifyWithin clash (depth + 1) s a b =
      discharge (unifyWithin clash depth) clash s (Obligation.ofTops (s.head a) (s.head b)))

theorem Rigid.surface_ne_var (rigid : s.Rigid t) (ref : Nat) :
    (s.view t).surface ≠ .atom (.var ref) := by
  rcases rigid with ⟨other, rfl, generic⟩ | ⟨head, parts, top⟩
  · simp [view_generic generic]
  · rw [view_node top, Term.surface_node]
    exact head.surface_ne_atom _ _

theorem surface_generic_ne {head : Head} {parts : List Ty} (generic : s.state ref = .generic)
    (top : t.node? = some (head, parts)) : (s.view (.cell ref)).surface ≠ (s.view t).surface := by
  rw [view_generic generic, view_node top, Term.surface_atom, Term.surface_node]
  exact (head.surface_ne_atom _ _).symm

theorem meeting_rigid (finite : ∀ t, s.Finite t) (freeA : s.unbound? (s.head a) = none)
    (freeB : s.unbound? (s.head b) = none) (rigidA : s.Rigid (s.head a)) (rigidB : s.Rigid (s.head b)) :
    s.Meeting a b := by
  have differ : (s.view (s.head a)).surface ≠ (s.view (s.head b)).surface → ¬ s.SameSurface a b := by
    rw [SameSurface, surface_head finite, surface_head finite]
    exact id
  rcases rigidA with ⟨ref, hereA, generic⟩ | ⟨headA, partsA, topA⟩ <;>
    rcases rigidB with ⟨other, hereB, generic'⟩ | ⟨headB, partsB, topB⟩
  · by_cases same : (s.cell ref).id = (s.cell other).id
    · refine .same ?_ fun clash depth => ?_
      · rw [← (Forward.refl s).view_head finite a, ← (Forward.refl s).view_head finite b, hereA, hereB,
          view_generic generic, view_generic generic', same]
      · simp only [unifyWithin, freeA, freeB]
        simp only [hereA, hereB, same, if_true]
    · refine .differ (differ ?_) fun clash depth => ?_
      · simp [hereA, hereB, view_generic generic, view_generic generic', same]
      · simp only [unifyWithin, freeA, freeB]
        simp only [hereA, hereB, same, if_false]
  · have built : ¬ ∃ ref other, s.head a = .cell ref ∧ s.head b = .cell other := by
      rintro ⟨_, _, -, cell⟩
      rw [cell] at topB
      cases topB
    refine .differ (differ (hereA ▸ surface_generic_ne generic topB)) fun clash depth => ?_
    rw [unifyWithin_tops freeA freeB built, hereA, Obligation.ofTops_cell_left ref topB, discharge]
  · have built : ¬ ∃ ref other, s.head a = .cell ref ∧ s.head b = .cell other := by
      rintro ⟨_, _, cell, -⟩
      rw [cell] at topA
      cases topA
    refine .differ (differ (hereB ▸ (surface_generic_ne generic' topA).symm)) fun clash depth => ?_
    rw [unifyWithin_tops freeA freeB built, hereB, Obligation.ofTops_cell_right other topA, discharge]
  · refine .parts topA topB fun clash depth => unifyWithin_tops freeA freeB ?_
    rintro ⟨_, _, cell, -⟩
    rw [cell] at topA
    cases topA

theorem meeting (finite : ∀ t, s.Finite t) (presentA : (s.head a).isMissing ≠ true)
    (presentB : (s.head b).isMissing ≠ true) : s.Meeting a b := by
  have rigid {t : Ty} (present : (s.head t).isMissing ≠ true) (free : s.unbound? (s.head t) = none) :
      s.Rigid (s.head t) :=
    rigid_of_unbound?_eq_none present free fun _ _ => head_unlinked (finite t)
  have surfaces : s.SameSurface a b ↔ (s.view (s.head a)).surface = (s.view (s.head b)).surface := by
    rw [SameSurface, surface_head finite, surface_head finite]
  cases freeA : s.unbound? (s.head a) with
  | some found =>
    obtain ⟨ref, level⟩ := found
    obtain ⟨hereA, free⟩ := unbound?_eq_some.mp freeA
    cases freeB : s.unbound? (s.head b) with
    | some found =>
      obtain ⟨other, own⟩ := found
      obtain ⟨hereB, free'⟩ := unbound?_eq_some.mp freeB
      by_cases same : ref = other
      · refine .same ?_ fun clash depth => ?_
        · rw [← (Forward.refl s).view_head finite a, ← (Forward.refl s).view_head finite b, hereA,
            hereB, same]
        · simp only [unifyWithin, freeA, freeB, same, if_true]
      · refine .left hereA free ?_ fun clash depth => ?_
        · rw [surfaces]
          simp [hereA, hereB, view_unbound free, view_unbound free', same]
        · simp only [unifyWithin, freeA, freeB, same, if_false]
    | none =>
      refine .left hereA free ?_ fun clash depth => by simp only [unifyWithin, freeA, freeB]
      rw [surfaces, hereA, view_unbound free, Term.surface_atom]
      exact ((rigid presentB freeB).surface_ne_var ref).symm
  | none =>
    cases freeB : s.unbound? (s.head b) with
    | some found =>
      obtain ⟨ref, level⟩ := found
      obtain ⟨hereB, free⟩ := unbound?_eq_some.mp freeB
      refine .right hereB free ?_ fun clash depth => by simp only [unifyWithin, freeA, freeB]
      rw [surfaces, hereB, view_unbound free, Term.surface_atom]
      exact (rigid presentA freeA).surface_ne_var ref
    | none => exact meeting_rigid finite freeA freeB (rigid presentA freeA) (rigid presentB freeB)

structure Proceeds (s s' : Store) : Prop where
  forward : s.Forward s'
  wellFormed : s'.WellFormed
  present : ∀ t, s.Throughout Ty.Present t → s'.Throughout Ty.Present t

theorem keeps_proceeds : Keeps (fun s s' => s.WellFormed → s.Proceeds s')
    fun s t => s.WellFormed ∧ s.Throughout Ty.Present t := by
  refine ⟨fun s wf => ⟨.refl s, wf, fun _ all => all⟩, ?_, ?_, ?_, ?_, ?_⟩
  · intro s s' s'' first second wf
    obtain ⟨forward, wf', present⟩ := first wf
    obtain ⟨forward', wf'', present'⟩ := second wf'
    exact ⟨forward.trans forward', wf'', fun t all => present' t (present t all)⟩
  · rintro s t ⟨wf, all⟩
    exact ⟨wf, all.head⟩
  · rintro s t head parts part ⟨wf, all⟩ top member
    exact ⟨wf, all.present_part top member⟩
  · rintro s s' t proceeds ⟨wf, all⟩
    exact ⟨(proceeds wf).wellFormed, (proceeds wf).present t all⟩
  · rintro s ref level t free - ⟨wf, all⟩ -
    have present : t.isMissing = false := Bool.eq_false_iff.mpr all.holds.not_missing
    rcases bind_cases wf free present with ⟨-, run⟩ | ⟨s', apart, binds, run⟩
    · rw [run]
      exact ⟨.refl s, wf, fun _ all => all⟩
    · rw [run]
      exact ⟨binds.forward, binds.wellFormed wf apart, fun u => binds.throughout apart all⟩

theorem unifyWithin_proceeds (clash : UnifyError) (depth : Nat) (wf : s.WellFormed)
    (presentA : s.Throughout Ty.Present a) (presentB : s.Throughout Ty.Present b) :
    s.Proceeds (unifyWithin clash depth s a b).1 :=
  keeps_proceeds.unifyWithin clash depth ⟨wf, presentA⟩ ⟨wf, presentB⟩ wf

theorem discharge_solves {step : Store → Ty → Ty → Store × Option UnifyError}
    (proceeds : ∀ (s : Store) a b, s.WellFormed → s.Throughout Ty.Present a → s.Throughout Ty.Present b →
      s.Proceeds (step s a b).1)
    (solves : ∀ (s : Store) a b, s.WellFormed → s.Throughout Ty.Present a → s.Throughout Ty.Present b →
      (step s a b).2 = none → ∀ θ, (step s a b).1.surface θ a = (step s a b).1.surface θ b)
    (wf : s.WellFormed)
    (present : ∀ o ∈ os, o = .clash ∨
      ∃ a b, o = .equal a b ∧ s.Throughout Ty.Present a ∧ s.Throughout Ty.Present b)
    (ok : (discharge step clash s os).2 = none) :
    s.Proceeds (discharge step clash s os).1 ∧
      ∀ θ, ∀ o ∈ os, o.Agrees ((discharge step clash s os).1.surface θ) := by
  induction os generalizing s with
  | nil => exact ⟨⟨.refl s, wf, fun _ all => all⟩, fun θ o member => by cases member⟩
  | cons o os ih =>
    obtain ⟨head, tail⟩ := List.forall_mem_cons.mp present
    rcases head with rfl | ⟨a, b, rfl, presentA, presentB⟩
    · cases ok
    · have first := proceeds s a b wf presentA presentB
      have equal := solves s a b wf presentA presentB
      cases run : step s a b with
      | mk s' e =>
        rw [run] at first equal
        simp only [discharge, run] at ok ⊢
        cases e with
        | some error => cases ok
        | none =>
          obtain ⟨rest, agrees⟩ := ih first.wellFormed (fun o member => by
            rcases tail o member with clash | ⟨x, y, same, presentX, presentY⟩
            · exact .inl clash
            · exact .inr ⟨x, y, same, first.present x presentX, first.present y presentY⟩) ok
          refine ⟨⟨first.forward.trans rest.forward, rest.wellFormed,
            fun t all => rest.present t (first.present t all)⟩, fun θ => ?_⟩
          refine List.forall_mem_cons.mpr ⟨?_, agrees θ⟩
          exact rest.forward.surface rest.wellFormed.acyclic.finite first.wellFormed.acyclic.finite
            (equal rfl) θ

theorem bind_view {level : Int} (wf : s.WellFormed) (free : s.state ref = .unbound level)
    (present : t.isMissing ≠ true) (finite' : ∀ u, (s.bind ref level t).1.Finite u)
    (ok : (s.bind ref level t).2 = none) :
    (s.bind ref level t).1.view (.cell ref) = (s.bind ref level t).1.view t := by
  rcases bind_cases wf free (Bool.eq_false_iff.mpr present) with ⟨-, run⟩ | ⟨s', -, binds, run⟩
  · rw [run] at ok
    cases ok
  · rw [run] at finite' ⊢
    exact view_linked (finite' _) binds.bound

theorem unifyWithin_solves (clash : UnifyError) (depth : Nat) (wf : s.WellFormed)
    (presentA : s.Throughout Ty.Present a) (presentB : s.Throughout Ty.Present b)
    (ok : (unifyWithin clash depth s a b).2 = none) (θ : Substitution) :
    (unifyWithin clash depth s a b).1.surface θ a = (unifyWithin clash depth s a b).1.surface θ b := by
  induction depth generalizing s a b θ with
  | zero => cases ok
  | succ depth steps =>
    have proceeds := unifyWithin_proceeds clash (depth + 1) wf presentA presentB
    have finite' := proceeds.wellFormed.acyclic.finite
    have presentA := presentA.head
    have presentB := presentB.head
    -- it is enough that the ends of the two chains are seen alike
    suffices ends : (unifyWithin clash (depth + 1) s a b).1.surface θ (s.head a) =
        (unifyWithin clash (depth + 1) s a b).1.surface θ (s.head b) by
      rwa [surface, surface, proceeds.forward.view_head finite', proceeds.forward.view_head finite']
        at ends
    cases meeting wf.acyclic.finite presentA.holds.not_missing presentB.holds.not_missing with
    | same view run =>
      rw [run, surface, surface, (Forward.refl s).view_head wf.acyclic.finite, view,
        (Forward.refl s).view_head wf.acyclic.finite]
    | differ _ run =>
      rw [run] at ok
      cases ok
    | left top free _ run =>
      rw [run] at ok finite' ⊢
      rw [surface, surface, top, bind_view wf free presentB.holds.not_missing finite' ok]
    | right top free _ run =>
      rw [run] at ok finite' ⊢
      rw [surface, surface, top, bind_view wf free presentA.holds.not_missing finite' ok]
    | parts topA topB run =>
      rw [run] at ok ⊢
      have parts := discharge_solves
        (fun s a b => unifyWithin_proceeds clash depth) (fun s a b => steps) wf (fun o member => by
          rcases Obligation.ofTops_parts topA topB presentA.holds presentB.holds member with
            clash | ⟨x, hx, y, hy, same⟩
          · exact .inl clash
          · exact .inr ⟨x, y, same, presentA.present_part topA hx, presentB.present_part topB hy⟩) ok
      exact (ofTops_surface topA topB presentA.holds presentB.holds).mp (parts.2 θ)

theorem discharge_idle {step : Store → Ty → Ty → Store × Option UnifyError}
    (idle : ∀ o ∈ os, ∃ a b, o = .equal a b ∧ step s a b = (s, none)) :
    discharge step clash s os = (s, none) := by
  induction os with
  | nil => rfl
  | cons o os ih =>
    obtain ⟨⟨a, b, rfl, run⟩, rest⟩ := List.forall_mem_cons.mp idle
    simp only [discharge, run, ih rest]

theorem unifyWithin_idle (clash : UnifyError) (depth : Nat) (acyclic : s.Acyclic)
    (bounded : s.Bounded bound) (presentA : s.Throughout Ty.Present a)
    (presentB : s.Throughout Ty.Present b) (fitsA : Fits bound depth s a) (same : s.SameSurface a b) :
    unifyWithin clash depth s a b = (s, none) := by
  induction depth generalizing a b with
  | zero => exact absurd (fitsA.height s (.refl s) acyclic bounded) (Nat.not_lt_zero _)
  | succ depth steps =>
    have presentA := presentA.head
    have presentB := presentB.head
    cases meeting acyclic.finite presentA.holds.not_missing presentB.holds.not_missing with
    | same _ run => exact run clash depth
    | differ surface | left _ _ surface | right _ _ surface => exact absurd same surface
    | parts topA topB run =>
      rw [SameSurface, ← surface_head acyclic.finite a, ← surface_head acyclic.finite b,
        ← surface_var, ← surface_var] at same
      have agrees := (ofTops_surface topA topB presentA.holds presentB.holds).mpr same
      rw [run]
      refine discharge_idle fun o member => ?_
      rcases Obligation.ofTops_parts topA topB presentA.holds presentB.holds member with
        rfl | ⟨x, hx, y, hy, rfl⟩
      · exact (agrees _ member).elim
      · have alike := agrees _ member
        rw [Obligation.agrees_equal, surface_var, surface_var] at alike
        exact ⟨x, y, rfl, steps (presentA.present_part topA hx) (presentB.present_part topB hy)
          ((fitsA.head bounded).part topA hx) alike⟩

theorem unify_idle (acyclic : s.Acyclic) (presentA : s.Throughout Ty.Present a)
    (presentB : s.Throughout Ty.Present b) (same : s.SameSurface a b) : s.unify a b = (s, none) :=
  unifyWithin_idle _ _ acyclic (s.bounded_weight a b) presentA presentB
    (fits_of_bounded s (by omega)) same

/-- Solving changes nothing where two types are equal as far as they can be seen, and it makes them
    equal in this sense, so that to do it again, from either side, changes nothing more. -/
theorem unify_settles (wf : s.WellFormed) (presentA : .missing ∉ (s.view a).atoms)
    (presentB : .missing ∉ (s.view b).atoms) :
    (s.SameSurface a b → s.unify a b = (s, none)) ∧
    ((s.unify a b).2 = none →
      let s' := (s.unify a b).1
      s'.SameSurface a b ∧ s'.unify a b = (s', none) ∧ s'.unify b a = (s', none)) := by
  have presentA := throughout_present wf.acyclic.finite presentA
  have presentB := throughout_present wf.acyclic.finite presentB
  refine ⟨unify_idle wf.acyclic presentA presentB, fun ok => ?_⟩
  intro s'
  have proceeds : s.Proceeds s' := unifyWithin_proceeds _ _ wf presentA presentB
  have acyclic' := proceeds.wellFormed.acyclic
  have presentA' := proceeds.present a presentA
  have presentB' := proceeds.present b presentB
  have same : s'.SameSurface a b := by
    have solved := unifyWithin_solves _ _ wf presentA presentB ok fun ref => .atom (.var ref)
    rwa [surface_var, surface_var] at solved
  exact ⟨same, unify_idle acyclic' presentA' presentB' same,
    unify_idle acyclic' presentB' presentA' same.symm⟩

def twinGeneric : Store :=
  { cells := #[⟨1, .unbound 2⟩, ⟨2, .unbound 3⟩, ⟨3, .linked (.cell 0)⟩, ⟨4, .generic⟩,
      ⟨4, .generic⟩] }

theorem twinGeneric_wellFormed : twinGeneric.WellFormed := by
  refine ⟨acyclic_of_descending fun ref next links => ?_, ?_, ?_⟩
  · obtain ⟨target, linked, leaf⟩ := links
    rcases ref with _ | _ | _ | _ | _ | ref
    all_goals cases linked
    simp only [Ty.leaves, List.mem_singleton, Leaf.cell.injEq] at leaf
    omega
  · intro ref other _ _ unbound unbound' same
    have number : ∀ {ref level}, twinGeneric.state ref = .unbound level →
        (twinGeneric.cell ref).id = ref + 1 := by
      intro ref level unbound
      rcases ref with _ | _ | _ | _ | _ | ref
      all_goals cases unbound
      all_goals rfl
    rw [number unbound, number unbound'] at same
    omega
  · intro ref level unbound
    rcases ref with _ | _ | _ | _ | _ | ref
    all_goals cases unbound
    all_goals decide

theorem unify_settles_shadowed :
    let a := Ty.record [("x", .cell 2), ("y", .cell 3), ("x", .cell 1)]
    let b := Ty.record [("y", .cell 4), ("x", .cell 0), ("y", .int)]
    let c := Ty.fn [.record [("x", .cell 1), ("x", .cell 0)]] (.app ⟨"T", "m", true⟩ [.cell 2])
    let d := Ty.fn [.record [("x", .list (.cell 0))]] (.app ⟨"T", "m", false⟩ [.cell 0])
    let solved := twinGeneric.unify c d
    twinGeneric.WellFormed ∧
    (twinGeneric.SameSurface a b ∧ twinGeneric.unify a b = (twinGeneric, none)) ∧
    (solved.2 = none ∧ solved.1.state 1 = .linked (.list (.cell 0)) ∧
      solved.1.state 0 = .unbound 2 ∧ solved.1.SameSurface c d ∧
      solved.1.unify c d = (solved.1, none) ∧ solved.1.unify d c = (solved.1, none)) := by
  intro a b c d solved
  have same : twinGeneric.SameSurface a b := rfl
  have ok : solved.2 = none := rfl
  obtain ⟨idle, -⟩ := unify_settles (a := a) (b := b) twinGeneric_wellFormed (by decide) (by decide)
  obtain ⟨-, settles⟩ := unify_settles (a := c) (b := d) twinGeneric_wellFormed (by decide) (by decide)
  exact ⟨twinGeneric_wellFormed, ⟨same, idle same⟩, ok, rfl, rfl, settles ok⟩

end LetPoly.Store
