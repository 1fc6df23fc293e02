import LetPoly.Proofs.Unification.Run

namespace LetPoly

namespace Store

variable {s s' s'' : Store} {a b t x y p q : Ty} {ref other : Nat} {level id : Int}
  {bound depth n m : Nat} {clash : UnifyError} {os : List Obligation}
  {failure : Store → UnifyError → Prop}

structure Sound (s : Store) : Prop where
  acyclic : s.Acyclic
  unmarked : s.Unmarked
  present : ∀ ref target, s.state ref = .linked target → target.Present

theorem Sound.head (sound : s.Sound) (present : t.Present) : (s.head t).Present :=
  head_closed (fun ref target linked _ => sound.present ref target linked) present

theorem Ties.sound (ties : s.Ties ref level t s') (sound : s.Sound) (present : t.Present) :
    s'.Sound := by
  have binds := ties.binds sound.unmarked
  refine ⟨binds.acyclic sound.acyclic ties.apart, ties.unmarked sound.unmarked, ?_⟩
  intro other target linked
  by_cases same : other = ref
  · subst same
    rw [ties.bound] at linked
    cases linked
    exact present
  · exact sound.present other target ((binds.linked_iff same).mp linked)

theorem Forward.headWithin_eq (forward : s.Forward s') {head : Head} {parts : List Ty}
    (top : (s.headWithin n t).node? = some (head, parts)) :
    s'.headWithin n t = s.headWithin n t := by
  induction n generalizing t with
  | zero => rfl
  | succ n ih =>
    cases t with
    | cell ref =>
      cases state : s.state ref with
      | linked target =>
        simp only [headWithin, state, forward.linked state] at top ⊢
        exact ih top
      | unbound | generic =>
        simp only [headWithin, state] at top
        cases top
    | _ => rfl

theorem Forward.head_eq (forward : s.Forward s') {head : Head} {parts : List Ty}
    (top : (s.head t).node? = some (head, parts)) : s'.head t = s.head t := by
  unfold Store.head depth
  rw [forward.size]
  exact forward.headWithin_eq top

/-- Two types stand opposite each other in two others: they end the chains at the top, or those of
    parts that solving sets against each other. -/
inductive Opposite (s : Store) : Ty → Ty → Ty → Ty → Prop
  | here (a b : Ty) : Opposite s a b (s.head a) (s.head b)
  | inside {a b x y p q : Ty} (part : .equal x y ∈ Obligation.ofTops (s.head a) (s.head b))
    (rest : Opposite s x y p q) : Opposite s a b p q

/-- An unbound variable of that number stands opposite a type in which the number is met. -/
def Refuses (s : Store) (a b : Ty) (id : Int) (t : Ty) : Prop :=
  (∃ ref level, (s.Opposite a b (.cell ref) t ∨ s.Opposite a b t (.cell ref)) ∧
    s.state ref = .unbound level ∧ (s.cell ref).id = id) ∧
  ∃ other level, s.Reaches t other ∧ s.state other = .unbound level ∧ (s.cell other).id = id

theorem Refuses.below (part : .equal x y ∈ Obligation.ofTops (s.head a) (s.head b))
    (refuses : s.Refuses x y id t) : s.Refuses a b id t := by
  obtain ⟨⟨ref, level, facing, free⟩, met⟩ := refuses
  exact ⟨⟨ref, level, facing.imp (.inside part) (.inside part), free⟩, met⟩

def Failure (clash : UnifyError) (a b : Ty) (s : Store) (error : UnifyError) : Prop :=
  error = clash ∨ ∃ id t, error = .recursive id t ∧ s.Refuses a b id t

structure Walkable (bound depth : Nat) (s : Store) (t : Ty) : Prop where
  present : t.Present
  fits : Fits bound depth s t

namespace Walkable

theorem head (walkable : Walkable bound depth s t) (sound : s.Sound) (bounded : s.Bounded bound) :
    Walkable bound depth s (s.head t) :=
  ⟨sound.head walkable.present, walkable.fits.head bounded⟩

theorem part {head : Head} {parts : List Ty} (walkable : Walkable bound (depth + 1) s t)
    (top : t.node? = some (head, parts)) {part : Ty} (member : part ∈ parts) :
    Walkable bound depth s part :=
  ⟨walkable.present.part top member, walkable.fits.part top member⟩

end Walkable

structure Ends (bound : Nat) (failure : Store → UnifyError → Prop) (s s' : Store)
    (e : Option UnifyError) : Prop where
  forward : s.Forward s'
  sound : s'.Sound
  bounded : s'.Bounded bound
  failed : ∀ error, e = some error → failure s' error

theorem Ends.same (sound : s.Sound) (bounded : s.Bounded bound) : Ends bound failure s s none :=
  ⟨.refl s, sound, bounded, fun _ failed => by cases failed⟩

theorem Ends.stop {error : UnifyError} (sound : s.Sound) (bounded : s.Bounded bound)
    (fails : failure s error) : Ends bound failure s s (some error) := by
  refine ⟨.refl s, sound, bounded, fun other same => ?_⟩
  cases same
  exact fails

theorem bind_ends (sound : s.Sound) (bounded : s.Bounded bound)
    (free : s.state ref = .unbound level) (walkable : Walkable bound depth s t)
    (fails : (∃ other own, s.Reaches t other ∧ s.state other = .unbound own ∧
      (s.cell other).id = (s.cell ref).id) → failure s (.recursive (s.cell ref).id t)) :
    Ends bound failure s (s.bind ref level t).1 (s.bind ref level t).2 := by
  rcases bind_ties sound.unmarked free t with ⟨met, run⟩ | ⟨missing, -⟩ | ⟨s', ties, run⟩
  · rw [run]
    exact .stop sound bounded (fails met)
  · exact absurd missing walkable.present.not_missing
  · rw [run]
    have binds := ties.binds sound.unmarked
    exact ⟨binds.forward, ties.sound sound walkable.present,
      binds.bounded bounded walkable.fits.size, fun _ failed => by cases failed⟩

theorem discharge_ends {step : Store → Ty → Ty → Store × Option UnifyError}
    (steps : ∀ s a b, s.Sound → s.Bounded bound → Walkable bound depth s a →
      Walkable bound depth s b → Ends bound (Failure clash a b) s (step s a b).1 (step s a b).2)
    (sound : s.Sound) (bounded : s.Bounded bound)
    (ready : ∀ o ∈ os, o = .clash ∨
      ∃ a b, o = .equal a b ∧ Walkable bound depth s a ∧ Walkable bound depth s b) :
    Ends bound
      (fun s error => error = clash ∨ ∃ a b, .equal a b ∈ os ∧ Failure clash a b s error) s
      (discharge step clash s os).1 (discharge step clash s os).2 := by
  induction os generalizing s with
  | nil => exact .same sound bounded
  | cons o os ih =>
    obtain ⟨head, tail⟩ := List.forall_mem_cons.mp ready
    rcases head with rfl | ⟨a, b, rfl, walkA, walkB⟩
    · exact .stop sound bounded (.inl rfl)
    · have first := steps s a b sound bounded walkA walkB
      cases run : step s a b with
      | mk s' e =>
        rw [run] at first
        simp only [discharge, run]
        cases e with
        | some error =>
          refine ⟨first.forward, first.sound, first.bounded, fun found same => .inr ⟨a, b, ?_⟩⟩
          exact ⟨List.mem_cons_self, first.failed found same⟩
        | none =>
          have rest := ih first.sound first.bounded fun o member => by
            rcases tail o member with clash | ⟨x, y, same, walkX, walkY⟩
            · exact .inl clash
            · exact .inr ⟨x, y, same, ⟨walkX.present, walkX.fits.later first.forward⟩,
                ⟨walkY.present, walkY.fits.later first.forward⟩⟩
          refine ⟨first.forward.trans rest.forward, rest.sound, rest.bounded, fun error failed => ?_⟩
          rcases rest.failed error failed with clash | ⟨x, y, member, fails⟩
          · exact .inl clash
          · exact .inr ⟨x, y, List.mem_cons_of_mem _ member, fails⟩

theorem ofTops_walkable (walkA : Walkable bound (depth + 1) s a)
    (walkB : Walkable bound (depth + 1) s b) {o : Obligation} (member : o ∈ Obligation.ofTops a b) :
    o = .clash ∨ ∃ x y, o = .equal x y ∧ Walkable bound depth s x ∧ Walkable bound depth s y := by
  rcases Obligation.ofTops_equal walkA.present walkB.present member with
    clash | ⟨_, _, _, _, topA, topB, x, hx, y, hy, same⟩
  · exact .inl clash
  · exact .inr ⟨x, y, same, walkA.part topA hx, walkB.part topB hy⟩

theorem unifyWithin_ends (clash : UnifyError) (depth : Nat) (sound : s.Sound)
    (bounded : s.Bounded bound) (walkA : Walkable bound depth s a)
    (walkB : Walkable bound depth s b) :
    Ends bound (Failure clash a b) s (unifyWithin clash depth s a b).1
      (unifyWithin clash depth s a b).2 := by
  induction depth generalizing s a b with
  | zero => exact absurd (walkA.fits.height s (.refl s) sound.acyclic bounded) (Nat.not_lt_zero _)
  | succ depth steps =>
    have walkA := walkA.head sound bounded
    have walkB := walkB.head sound bounded
    cases s.layer a b with
    | equal run =>
      rw [run]
      exact .same sound bounded
    | clash run =>
      rw [run]
      exact .stop sound bounded (.inl rfl)
    | @left ref level top free run =>
      rw [run]
      refine bind_ends sound bounded free walkB fun met => .inr ⟨_, _, rfl, ?_, met⟩
      exact ⟨ref, level, .inl (top ▸ .here a b), free, rfl⟩
    | @right ref level top free run =>
      rw [run]
      refine bind_ends sound bounded free walkA fun met => .inr ⟨_, _, rfl, ?_, met⟩
      exact ⟨ref, level, .inr (top ▸ .here a b), free, rfl⟩
    | parts run =>
      rw [run]
      have parts := discharge_ends (fun s a b => steps) sound bounded fun o =>
        ofTops_walkable walkA walkB
      refine ⟨parts.forward, parts.sound, parts.bounded, fun error failed => ?_⟩
      rcases parts.failed error failed with same | ⟨x, y, member, same | ⟨id, t, same, refuses⟩⟩
      · exact .inl same
      · exact .inl same
      · -- both chains end at a head, so they still end there when the failure is reported
        rcases Obligation.ofTops_between member with ⟨⟨⟩⟩ | ⟨_, _, _, _, topA, topB, -⟩
        refine .inr ⟨id, t, same, refuses.below ?_⟩
        rw [parts.forward.head_eq topA, parts.forward.head_eq topB]
        exact member

theorem discharge_more {step more : Store → Ty → Ty → Store × Option UnifyError}
    (steps : ∀ s a b, (step s a b).2 ≠ some .cyclic → more s a b = step s a b)
    (ends : (discharge step clash s os).2 ≠ some .cyclic) :
    discharge more clash s os = discharge step clash s os := by
  induction os generalizing s with
  | nil => rfl
  | cons o os ih =>
    cases o with
    | clash | fault => rfl
    | equal a b =>
      cases run : step s a b with
      | mk s' e =>
        simp only [discharge, run] at ends ⊢
        have same : more s a b = (s', e) := by
          rw [← run]
          apply steps
          rw [run]
          cases e with
          | none =>
            intro cyclic
            cases cyclic
          | some error => exact ends
        rw [same]
        cases e with
        | none => exact ih ends
        | some error => rfl

theorem unifyWithin_more (ends : (unifyWithin clash n s a b).2 ≠ some .cyclic) (le : n ≤ m) :
    unifyWithin clash m s a b = unifyWithin clash n s a b := by
  induction n generalizing s a b m with
  | zero => exact absurd rfl ends
  | succ n ih =>
    obtain ⟨m, rfl⟩ : ∃ k, m = k + 1 := ⟨m - 1, by omega⟩
    cases s.layer a b with
    | equal run | clash run | left _ _ run | right _ _ run => rw [run, run]
    | parts run =>
      rw [run] at ends
      rw [run, run]
      exact discharge_more (fun s a b ends => ih ends (by omega)) ends

theorem unify_ends (sound : s.Sound) (presentA : a.Present) (presentB : b.Present) :
    ∃ bound, Ends bound (Failure (.mismatch a b) a b) s (s.unify a b).1 (s.unify a b).2 :=
  ⟨_, unifyWithin_ends _ _ sound (s.bounded_weight a b)
    ⟨presentA, fits_of_bounded s (by omega)⟩ ⟨presentB, fits_of_bounded s (by omega)⟩⟩

end Store

end LetPoly
