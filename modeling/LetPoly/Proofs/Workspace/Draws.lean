import LetPoly.Proofs.Batch.Twin
import LetPoly.Proofs.Inference.Steps
import Mathlib.Data.List.Nodup

namespace LetPoly

namespace Supply

variable {p q r : Supply} {refs refs' : List Nat} {s s' : Store} {first n : Int}

def madeSince (p q : Supply) : List Nat :=
  List.range' p.store.size (q.store.size - p.store.size)

/-- The variables have the numbers from the first one on, and the counter stands behind the last of
    them. Numbers wrap around. -/
structure Consecutive (first : Int) (refs : List Nat) (p : Supply) : Prop where
  inside : ∀ ref ∈ refs, ref < p.store.size
  next : p.nextId = wrap64 (first + refs.length)
  ids : (refs.map fun ref => (p.store.cell ref).id) =
    (List.range refs.length).map fun i : Nat => wrap64 (first + i)

/-- The variables were drawn one after the other, and what else was made is generic. -/
structure Draws (p : Supply) (refs : List Nat) (q : Supply) : Prop where
  kept : p.store.Extends q.store
  made : ∀ ref, p.store.size ≤ ref → ref < q.store.size → ref ∈ refs ∨ q.store.state ref = .generic
  consecutive : Consecutive p.nextId refs q

namespace Consecutive

theorem nil (word : IsWord first) (s : Store) : Consecutive first [] ⟨s, first⟩ := by
  refine ⟨fun ref member => absurd member List.not_mem_nil, ?_, rfl⟩
  simpa using (wrap64_of_isWord word).symm

theorem word (consecutive : Consecutive first refs p) : IsWord p.nextId := by
  rw [consecutive.next]
  exact isWord_wrap64 _

theorem kept (consecutive : Consecutive first refs ⟨s, n⟩) (size : s.size ≤ s'.size)
    (id : ∀ ref, ref < s.size → (s'.cell ref).id = (s.cell ref).id) :
    Consecutive first refs ⟨s', n⟩ := by
  refine ⟨fun ref member => Nat.lt_of_lt_of_le (consecutive.inside ref member) size, consecutive.next, ?_⟩
  rw [← consecutive.ids]
  apply List.map_congr_left
  intro ref member
  exact id ref (consecutive.inside ref member)

theorem append (consecutive : Consecutive first refs p) (draws : Draws p refs' q) :
    Consecutive first (refs ++ refs') q := by
  have next (n : Nat) : wrap64 (p.nextId + n) = wrap64 (first + (refs.length + n : Nat)) := by
    rw [consecutive.next, wrap64_wrap64_add, Int.natCast_add, Int.add_assoc]
  have before : Consecutive first refs ⟨q.store, p.nextId⟩ :=
    consecutive.kept draws.kept.size fun ref inside => by rw [draws.kept.cell ref inside]
  refine ⟨fun ref member => ?_, ?_, ?_⟩
  · rcases List.mem_append.mp member with member | member
    · exact before.inside ref member
    · exact draws.consecutive.inside ref member
  · rw [draws.consecutive.next, next, List.length_append]
  · rw [List.map_append, before.ids, draws.consecutive.ids, List.length_append, List.range_add]
    simp only [List.map_append, List.map_map, Function.comp_def, next]

theorem nodup (consecutive : Consecutive first refs p) (few : refs.length ≤ wordCount) :
    (refs.map fun ref => (p.store.cell ref).id).Nodup := by
  rw [consecutive.ids]
  apply List.Nodup.map_on _ List.nodup_range
  intro i small j small' same
  have rest := congrArg (· % (wordCount : Int)) same
  simp only [wrap64, Int.bmod_emod, wordCount] at rest
  simp only [List.mem_range, wordCount] at small small' few
  omega

end Consecutive

namespace Draws

theorem word (draws : Draws p refs q) : IsWord q.nextId := draws.consecutive.word

theorem idle (word : IsWord p.nextId) (kept : p.store.Extends s)
    (made : ∀ ref, p.store.size ≤ ref → ref < s.size → s.state ref = .generic) :
    Draws p [] { p with store := s } :=
  ⟨kept, fun ref outside inside => .inr (made ref outside inside), .nil word s⟩

theorem none (word : IsWord p.nextId) : Draws p [] p :=
  idle word (.refl p.store) fun _ outside inside => absurd inside (Nat.not_lt.mpr outside)

theorem one (word : IsWord p.nextId) (state : VarState) :
    Draws p [p.store.size] (p.fresh state).2 := by
  have size : (p.fresh state).2.store.size = p.store.size + 1 := Store.size_alloc _ _ _
  refine ⟨Store.extends_alloc _ _ _, fun ref outside inside => .inl ?_, fun ref member => ?_, rfl, ?_⟩
  · rw [size] at inside
    exact List.mem_singleton.mpr (by omega)
  · rw [List.mem_singleton.mp member, size]
    omega
  · simp [fresh, Store.cell_alloc_self, wrap64_of_isWord word]

theorem trans (first : Draws p refs q) (second : Draws q refs' r) : Draws p (refs ++ refs') r := by
  refine ⟨first.kept.trans second.kept, fun ref outside inside => ?_, first.consecutive.append second⟩
  rw [List.mem_append]
  by_cases early : ref < q.store.size
  · rw [second.kept.state early]
    exact (first.made ref outside early).imp_left .inl
  · exact (second.made ref (Nat.not_lt.mp early) inside).imp_left .inr

theorem generalize (word : IsWord p.nextId) (level : Int) (t : Ty) :
    Draws p [] { p with store := (p.store.generalize level t).2 } := by
  apply Store.generalizeWithin_moves
    (R := fun s s' => ∀ id, IsWord id → Draws ⟨s, id⟩ [] ⟨s', id⟩) ?_ ?_ ?_ ?_ p.store.depth t
    (p.store, []) p.nextId word
  · intro s id word
    exact none word
  · intro s s' s'' first second id word
    exact (first id word).trans (second id word)
  · intro s id word
    exact idle word (Store.extends_freshMissing s) fun _ outside inside =>
      absurd inside (Nat.not_lt.mpr outside)
  · intro s ref own _ _ id word
    refine idle word (Store.extends_alloc _ _ _) fun new outside inside => ?_
    rw [Store.size_alloc] at inside
    obtain rfl : new = s.size := Nat.le_antisymm (Nat.le_of_lt_succ inside) outside
    exact Store.state_alloc_self _ _ _

end Draws

def DrawsAll (p q : Supply) : Prop := IsWord p.nextId → Draws p (p.madeSince q) q

theorem drawsAll_refl (p : Supply) : DrawsAll p p := by
  intro word
  simpa [madeSince] using Draws.none word

theorem DrawsAll.trans (first : DrawsAll p q) (second : DrawsAll q r) : DrawsAll p r := by
  intro word
  have first := first word
  have second := second first.word
  have parts : p.madeSince r = p.madeSince q ++ q.madeSince r := by
    have early := first.kept.size
    have late := second.kept.size
    unfold madeSince
    rw [← Nat.sub_add_sub_cancel late early, Nat.add_comm, ← List.range'_append_1,
      Nat.add_sub_cancel' early]
  rw [parts]
  exact first.trans second

theorem drawsAll_fresh (p : Supply) (state : VarState) : DrawsAll p (p.fresh state).2 := by
  intro word
  have made : p.madeSince (p.fresh state).2 = [p.store.size] := by
    simp [madeSince, fresh, Store.size_alloc]
  rw [made]
  exact .one word state

theorem instantiate_drawsAll (p : Supply) (level : Int) (t : Ty) :
    DrawsAll p (p.instantiate level t).2 :=
  instantiateWithin_moves drawsAll_refl .trans (fun p => drawsAll_fresh p _) p.store.depth t (p, [])

theorem bindParams_drawsAll (level : Int) (params : List Param) (env : Bindings) (p : Supply) :
    DrawsAll p (bindParams level params env p).2.2 :=
  bindParams_moves drawsAll_refl .trans (fun p => drawsAll_fresh p _) params env p

end Supply

namespace Expr

def drawn : Expr → Int → Bindings → Supply → List Nat
  | .seq _ first body, level, env, p =>
    first.drawn level env p ++
      match first.infer level env p with
      | (.error _, _) => []
      | (.ok _, q) => body.drawn level env q
  | .var _ name _ _, level, env, p =>
    match env.get? name with
    | none => []
    | some scheme => p.madeSince (p.instantiate level scheme).2
  | .fn _ params body _, level, env, p =>
    let (_, inner, q) := bindParams level params env p
    p.madeSince q ++ body.drawn level inner q
  | .letIn _ (.var _ name) value body _, level, env, p =>
    value.drawn (wrap64 (level + 1)) env p ++
      match value.infer (wrap64 (level + 1)) env p with
      | (.error _, _) => []
      | (.ok value, q) =>
        match value.typeIn q.store with
        | .error _ => []
        | .ok type =>
          let (bound, store) := q.store.generalize level type
          body.drawn level (env.insert name bound) { q with store }
  | .nil _ _, _, _, p => [p.store.size]
  | _, _, _, _ => []

theorem infer_draws {e : Expr} {level : Int} {env : Bindings} {p : Supply} (word : IsWord p.nextId) :
    p.Draws (e.drawn level env p) (e.infer level env p).2 := by
  fun_induction Expr.drawn e level env p with
  | case1 pos first body level env p ihFirst ihBody =>
    have drawn := ihFirst word
    rcases run : first.infer level env p with ⟨error | typed, q⟩
    · rw [run] at drawn
      simpa only [infer, run, List.append_nil] using drawn
    · rw [run] at drawn
      rw [infer_seq_last run]
      exact drawn.trans (ihBody q drawn.word)
  | case2 pos name scope type level env p unbound =>
    simpa only [infer, unbound] using Supply.Draws.none word
  | case3 pos name scope type level env p scheme bound =>
    have drawn := p.instantiate_drawsAll level scheme word
    rcases run : p.instantiate level scheme with ⟨fault | t, q⟩ <;> rw [run] at drawn <;>
      simpa only [infer, bound, run] using drawn
  | case4 pos params body type level env p types inner q run ih =>
    have drawn := Supply.bindParams_drawsAll level params env p word
    rw [infer_fn_last, run]
    rw [run] at drawn
    exact drawn.trans (ih drawn.word)
  | case5 pos namePos name value body bound level env p ihValue ihBody =>
    have drawn := ihValue word
    rcases run : value.infer (wrap64 (level + 1)) env p with ⟨error | typed, q⟩
    · rw [run] at drawn
      simpa only [infer, run, List.append_nil] using drawn
    · rw [run] at drawn
      cases type : typed.typeIn q.store with
      | error fault => simpa only [infer, run, type, List.append_nil] using drawn
      | ok t =>
        have bound := Supply.Draws.generalize drawn.word level t
        rw [infer_letIn_last run type]
        simp only [type]
        exact drawn.trans (bound.trans (ihBody q _ _ drawn.word))
  | case6 pos type level env p => exact .one word _
  | case7 e level env p notSeq notVar notFn notLet notNil =>
    -- literals, and the forms that are turned down at once
    have idle : (e.infer level env p).2 = p := by
      induction e using Expr.inferInduction with
      | literal e name literal => rw [infer_literal literal]
      | refused e refused =>
        obtain ⟨error, invalid, stops⟩ := refused
        rw [stops]
      | seq => exact (notSeq _ _ _ rfl).elim
      | var => exact (notVar _ _ _ _ rfl).elim
      | fn => exact (notFn _ _ _ _ rfl).elim
      | letIn => exact (notLet _ _ _ _ _ _ rfl).elim
      | nil => exact (notNil _ _ rfl).elim
    rw [idle]
    exact .none word

end Expr

end LetPoly
