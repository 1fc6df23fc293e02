import LetPoly.Proofs.Batch.Prelude
import LetPoly.Proofs.Workspace.Draws

namespace LetPoly

theorem wrap64_of_beyond {n : Int} (beyond : wordLimit ≤ n) (once : n < wordLimit + wordCount) :
    wrap64 n = n - wordCount := by
  have word : IsWord (n - wordCount) := by
    simp only [IsWord, wordLimit, wordCount] at beyond once ⊢
    omega
  have same : wrap64 (n - wordCount) = wrap64 n := by
    unfold wrap64
    exact Int.sub_bmod_right n wordCount
  rw [← same, wrap64_of_isWord word]

def SeemsExhausted (first : Int) (count : Nat) : Prop :=
  wrap64 (first + batchIdRange) < wrap64 (first + count)

instance (first : Int) (count : Nat) : Decidable (SeemsExhausted first count) :=
  inferInstanceAs (Decidable (wrap64 (first + batchIdRange) < wrap64 (first + count)))

/-- The test is right if the counter and the end of the range have both come around or neither has,
    and wrong if only one of them has. -/
theorem seemsExhausted_iff {first : Int} {count : Nat} (word : IsWord first)
    (few : count ≤ wordCount) :
    SeemsExhausted first count ↔
      (batchIdRange < count ↔
        (wordLimit ≤ first + batchIdRange ↔ wordLimit ≤ first + count)) := by
  have turned : ∀ n : Int, 0 ≤ n → n ≤ wordCount → wordLimit ≤ first + n →
      wrap64 (first + n) = first + n - wordCount := by
    intro n low high beyond
    obtain ⟨above, below⟩ := word
    exact wrap64_of_beyond beyond (by omega)
  have straight : ∀ n : Int, 0 ≤ n → ¬ wordLimit ≤ first + n → wrap64 (first + n) = first + n := by
    intro n low within
    obtain ⟨above, below⟩ := word
    exact wrap64_of_isWord ⟨by omega, by omega⟩
  have range : 0 ≤ batchIdRange ∧ batchIdRange < wordCount := by decide
  obtain ⟨above, below⟩ := word
  unfold SeemsExhausted
  by_cases ends : wordLimit ≤ first + batchIdRange
  · by_cases stands : wordLimit ≤ first + count
    · rw [turned _ range.1 (by omega) ends, turned _ (by omega) (by omega) stands]
      omega
    · rw [turned _ range.1 (by omega) ends, straight _ (by omega) stands]
      simp only [wordLimit, wordCount] at above below ends stands range ⊢
      omega
  · by_cases stands : wordLimit ≤ first + count
    · rw [straight _ range.1 ends, turned _ (by omega) (by omega) stands]
      omega
    · rw [straight _ range.1 ends, straight _ (by omega) stands]
      omega

variable {level base : Int} {env : Bindings} {es results : List Expr} {s : Store} {index i count : Nat}
  {cancelled : Bool}

def drawnFrom (level : Int) (env : Bindings) (base : Int) : Nat → List Expr → Store → List Nat
  | _, [], _ => []
  | index, e :: es, s =>
    let start : Supply := ⟨s, wrap64 (base + index * batchIdRange)⟩
    (e.drawn level env start).length ::
      drawnFrom level env base (index + 1) es (e.infer level env start).2.store

theorem Expr.inferTop_next (e : Expr) (level : Int) (env : Bindings) {p : Supply}
    (word : IsWord p.nextId) :
    (e.inferTop level env p).supply.nextId =
      wrap64 (p.nextId + (e.drawn level env p).length) := by
  rw [inferTop_supply]
  exact (infer_draws word).consecutive.next

section Step

variable (level : Int) (env : Bindings) (base : Int) (index : Nat) (e : Expr) (es : List Expr) (s : Store)

theorem inferFrom_cons_ok {typed : Expr} :
    let start : Supply := ⟨s, wrap64 (base + index * batchIdRange)⟩
    (e.inferTop level env start).result = .ok typed →
    (inferFrom level env base index (e :: es) s).result =
      if SeemsExhausted start.nextId (e.drawn level env start).length then .error (.exhausted index)
      else (inferFrom level env base (index + 1) es (e.infer level env start).2.store).result.map
        (typed :: ·) := by
  intro start done
  have next := e.inferTop_next level env (p := start) (isWord_wrap64 _)
  rw [← e.inferTop_supply]
  simp only [inferFrom, start] at done next ⊢
  simp only [done, next]
  exact apply_ite BatchInferred.result _ _ _

theorem inferFrom_cons_error {stop : Stop} :
    let start : Supply := ⟨s, wrap64 (base + index * batchIdRange)⟩
    (e.inferTop level env start).result = .error stop →
    ∃ error, (inferFrom level env base index (e :: es) s).result = .error error ∧
      ∀ i, error ≠ .exhausted i := by
  intro start fails
  simp only [inferFrom, start] at fails ⊢
  simp only [fails]
  cases stop with
  | failed error invalid => exact ⟨_, rfl, fun i same => by cases same⟩
  | fault f => exact ⟨_, rfl, fun i same => by cases same⟩

end Step

theorem inferFrom_exhausted
    (fails : (inferFrom level env base index es s).result = .error (.exhausted i)) :
    ∃ k count, i = index + k ∧ (drawnFrom level env base index es s)[k]? = some count ∧
      SeemsExhausted (wrap64 (base + i * batchIdRange)) count := by
  induction es generalizing index s with
  | nil => cases fails
  | cons e es ih =>
    cases outcome : (e.inferTop level env ⟨s, wrap64 (base + index * batchIdRange)⟩).result with
    | error stop =>
      obtain ⟨error, stopped, other⟩ := inferFrom_cons_error level env base index e es s outcome
      cases stopped.symm.trans fails
      exact absurd rfl (other i)
    | ok typed =>
      rw [inferFrom_cons_ok level env base index e es s outcome] at fails
      split at fails
      · rename_i seems
        cases fails
        exact ⟨0, _, rfl, rfl, seems⟩
      · cases rest : (inferFrom level env base (index + 1) es
          (e.infer level env ⟨s, wrap64 (base + index * batchIdRange)⟩).2.store).result with
        | ok results =>
          rw [rest] at fails
          cases fails
        | error error =>
          rw [rest] at fails
          cases fails
          obtain ⟨k, count, place, drew, seems⟩ := ih rest
          exact ⟨k + 1, count, by omega, drew, seems⟩

theorem inferFrom_not_exhausted (done : (inferFrom level env base index es s).result = .ok results)
    (k : Nat) (drew : (drawnFrom level env base index es s)[k]? = some count) :
    ¬ SeemsExhausted (wrap64 (base + (index + k : Nat) * batchIdRange)) count := by
  induction es generalizing index s results k with
  | nil => cases drew
  | cons e es ih =>
    cases outcome : (e.inferTop level env ⟨s, wrap64 (base + index * batchIdRange)⟩).result with
    | error stop =>
      obtain ⟨error, stopped, -⟩ := inferFrom_cons_error level env base index e es s outcome
      cases stopped.symm.trans done
    | ok typed =>
      rw [inferFrom_cons_ok level env base index e es s outcome] at done
      split at done
      · cases done
      · rename_i passes
        cases k with
        | zero =>
          cases drew
          exact passes
        | succ k =>
          cases rest : (inferFrom level env base (index + 1) es
            (e.infer level env ⟨s, wrap64 (base + index * batchIdRange)⟩).2.store).result with
          | error error =>
            rw [rest] at done
            cases done
          | ok results =>
            have later := ih rest k drew
            rwa [Nat.add_right_comm, Nat.add_assoc] at later

theorem inferAll_exhausted
    (fails : (inferAll level env base cancelled es s).result = .error (.exhausted i)) :
    (inferFrom level env base 0 es s).result = .error (.exhausted i) := by
  simp only [inferAll] at fails
  split at fails
  · cases fails
  · split at fails
    · cases fails
    · split at fails
      · cases fails
      · exact fails

/-- As long as the counter of an expression and the end of its range come around together, the
    expression is reported only if it has drawn more than is kept for it, and no batch with such an
    expression has results. -/
theorem inferAll_exhaustion_exact (drew : (drawnFrom level env base 0 es s)[i]? = some count)
    (few : count ≤ wordCount)
    (together : wordLimit ≤ wrap64 (base + i * batchIdRange) + batchIdRange ↔
      wordLimit ≤ wrap64 (base + i * batchIdRange) + count) :
    ((inferAll level env base cancelled es s).result = .error (.exhausted i) →
      batchIdRange < count) ∧
    ∀ results, (inferAll level env base cancelled es s).result = .ok results →
      count ≤ batchIdRange := by
  have exact := seemsExhausted_iff (isWord_wrap64 (base + i * batchIdRange)) few
  rw [iff_true_right together] at exact
  constructor
  · intro fails
    obtain ⟨k, count', place, drew', seems⟩ := inferFrom_exhausted (inferAll_exhausted fails)
    obtain rfl : i = k := by omega
    cases drew.symm.trans drew'
    exact exact.mp seems
  · intro results done
    obtain ⟨-, -, run⟩ := inferAll_eq_ok done
    have passes := inferFrom_not_exhausted (run ▸ done) i drew
    rw [Nat.zero_add, exact] at passes
    exact Int.not_lt.mp passes

theorem inferAll_exhaustion_exact_around :
    let e : Expr := .fn {} [⟨{}, "x"⟩, ⟨{}, "y"⟩, ⟨{}, "z"⟩] (.var {} "z" .unresolved .missing) .missing
    let base : Int := wordLimit - 2
    (drawnFrom 1 {} base 0 [e] {})[0]? = some 3 ∧
    (wordLimit ≤ wrap64 (base + (0 : Nat) * batchIdRange) + batchIdRange ↔
      wordLimit ≤ wrap64 (base + (0 : Nat) * batchIdRange) + (3 : Nat)) ∧
    (∃ results, (inferAll 1 {} base false [e] {}).result = .ok results) ∧
    (3 : Nat) ≤ batchIdRange := by
  intro e base
  have drew : (drawnFrom 1 {} base 0 [e] {})[0]? = some 3 := by rfl
  have together : wordLimit ≤ wrap64 (base + (0 : Nat) * batchIdRange) + batchIdRange ↔
      wordLimit ≤ wrap64 (base + (0 : Nat) * batchIdRange) + (3 : Nat) := by decide
  have done : ∃ results, (inferAll 1 {} base false [e] {}).result = .ok results := ⟨_, rfl⟩
  obtain ⟨results, done⟩ := done
  exact ⟨drew, together, ⟨results, done⟩,
    (inferAll_exhaustion_exact drew (by decide) together).2 results done⟩

theorem bindParams_size (level : Int) (params : List Param) (env : Bindings) (p : Supply) :
    (bindParams level params env p).2.2.store.size = p.store.size + params.length := by
  induction params generalizing env p with
  | nil => rfl
  | cons param params ih =>
    have size : (p.freshUnbound level).2.store.size = p.store.size + 1 := Store.size_alloc _ _ _
    rw [bindParams, ih, size, List.length_cons]
    omega

theorem drawn_constant_length (params : List Param) (value : Int) (p : Supply) :
    ((Expr.fn {} params (.int {} value) .missing).drawn level env p).length = params.length := by
  simp [Expr.drawn, Supply.madeSince, bindParams_size]

theorem inferTop_constant (level : Int) (env : Bindings) (params : List Param) (value : Int)
    (p : Supply) :
    ∃ typed, ((Expr.fn {} params (.int {} value) .missing).inferTop level env p).result = .ok typed :=
  ⟨_, rfl⟩

/-- A literal draws no number, and is still said to have used up its range if the range goes around the
    end of the words. A function that draws one number more than there are in its range gets through
    if its counter goes around that end and the range does not. -/
theorem inferAll_exhaustion_misjudged :
    let last : Int := wordLimit - 1
    let e : Expr := .fn {} (List.replicate 16777217 ⟨{}, "x"⟩) (.int {} 1) .missing
    ((inferAll 1 {} last false [.int {} 1] {}).result = .error (.exhausted 0) ∧
      drawnFrom 1 {} last 0 [.int {} 1] {} = [0]) ∧
    (∃ results, (inferAll 1 {} (last - batchIdRange) false [e] {}).result = .ok results) ∧
      drawnFrom 1 {} (last - batchIdRange) 0 [e] {} = [16777217] ∧ batchIdRange < 16777217 := by
  intro last e
  have length (p : Supply) : (e.drawn 1 {} p).length = 16777217 := by
    rw [drawn_constant_length, List.length_replicate]
  refine ⟨⟨rfl, rfl⟩, ?_, ?_, by decide⟩
  · obtain ⟨typed, done⟩ := inferTop_constant 1 {} (List.replicate 16777217 ⟨{}, "x"⟩) 1
      ⟨{}, wrap64 (last - batchIdRange + (0 : Nat) * batchIdRange)⟩
    have closed : ∀ entry ∈ ({} : Bindings).entries, ({} : Store).NoUnbound entry.2 := by
      intro entry member
      cases member
    have passes : ¬ SeemsExhausted (wrap64 (last - batchIdRange + (0 : Nat) * batchIdRange)) 16777217 := by
      decide
    rw [inferAll_eq_inferFrom rfl closed, inferFrom_cons_ok 1 {} _ 0 e [] {} done, length,
      if_neg passes]
    exact ⟨[typed], rfl⟩
  · simp only [drawnFrom, length]

end LetPoly
