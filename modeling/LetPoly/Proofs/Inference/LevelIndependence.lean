import LetPoly.Proofs.Batch.Results
import LetPoly.Proofs.Inference.Raise
import LetPoly.Settings

namespace LetPoly

/-- What is told of an inference: the text of the type, or what its error says. -/
inductive Verdict
  | typed (text : String)
  | unknownVariable (pos : Pos) (name : String) (visible : List String)
  | notImplemented (pos : Pos) (form : String)
  | incomplete (message : String)
  | fault
deriving DecidableEq

def InferError.verdict : InferError → Verdict
  | .unknownVariable pos name visible => .unknownVariable pos name visible.names
  | .notImplemented pos form => .notImplemented pos form
  | error => .incomplete error.message

def Inferred.verdict (r : Inferred) : Verdict :=
  match r.result with
  | .error (.failed error _) => error.verdict
  | .error (.fault _) => .fault
  | .ok typed =>
    match typed.typeIn r.supply.store with
    | .ok t => .typed (r.supply.store.typeString t)
    | .error _ => .fault

theorem InferError.Alike.verdict_eq {P : Ty → Ty → Prop} {error error' : InferError}
    (alike : error.Alike P error') : error'.verdict = error.verdict := by
  cases alike with
  | same => rfl
  | unknownVariable alike => simp only [verdict, alike.names_eq]

theorem InferError.verdict_ne_fault (error : InferError) : error.verdict ≠ .fault := by
  cases error <;> simp [verdict]

theorem ClearLevels.ne_linkLevel {level : Int} {depth k : Nat} (clear : ClearLevels level depth)
    (le : k ≤ depth) : wrap64 (level + k) ≠ linkLevel := by
  have first := clear.first
  have last := clear.last
  simp only [wordLimit] at last
  apply wrap64_add_ne_linkLevel
  · simp only [linkLevel]
    omega
  · simp only [wordCount, linkLevel]
    omega

theorem ClearLevels.kept : Supply.Kept Supply.Steps ClearLevels where
  refl _ := .refl
  trans := .trans
  draw clear p := .single (.draw p clear.unmarked)
  name p id := .single (.name p id)
  mark p := .single (.mark p)
  fewer := ClearLevels.mono
  next clear := by
    obtain ⟨wrapped, deeper⟩ := clear.next
    rw [wrapped]
    exact deeper

namespace Expr

variable {e : Expr} {level level' : Int}

theorem inferTop_verdict (clear : ClearLevels level e.letDepth) (s : Store) :
    (e.inferTop level {} ⟨s, 0⟩).verdict = (e.inferTop level {} {}).verdict ∧
      (e.inferTop level {} {}).verdict ≠ .fault := by
  let b : Batch := ⟨{}, level, {}⟩
  have word : IsWord 0 := by decide
  have empty : ({} : Store).Extends s := ⟨Nat.zero_le _, fun ref inside => by cases inside⟩
  have twin : (b.mirror False 0 s.size).Twin {} ⟨s, b.firstId 0⟩ :=
    Batch.mirror_twin word empty (Nat.zero_add _).symm
  have scopes : Bindings.Alike ((b.mirror False 0 s.size).Scheme 0) {} {} :=
    b.mirror_scopes (fun entry member => by cases member) 0
  obtain ⟨twin, -, outcomes⟩ := twin.inferTop scopes fun k le => clear.ne_linkLevel le
  change (b.mirror False 0 s.size).Twin (e.inferTop level {} {}).supply
    (e.inferTop level {} ⟨s, 0⟩).supply at twin
  change (b.mirror False 0 s.size).Outcomes _ (e.inferTop level {} {}).result
    (e.inferTop level {} ⟨s, 0⟩).result at outcomes
  generalize e.inferTop level {} {} = r at *
  generalize e.inferTop level {} ⟨s, 0⟩ = r' at *
  obtain ⟨result, p, context, log⟩ := r
  obtain ⟨result', p', context', log'⟩ := r'
  simp only [Inferred.verdict]
  cases outcomes with
  | ok alike =>
    have facing := twin.lies.own_facing (Nat.le_refl _)
    obtain ⟨t, t', known, known', own⟩ := Mirror.typeIn_alike facing alike
    have text := Store.showType_renumbered (facing.finite_of_leaves own.own)
      (facing.finite_mate own.own own.mates) (b.mirror False 0 s.size).injective
      (facing.shown_eq own.own own.mates) Store.defaultWidth {}
    have same : p'.store.typeString t' = p.store.typeString t := by
      have text := congrArg Prod.fst text
      exact text
    simp [known, known', same]
  | failed invalid alike => exact ⟨alike.verdict_eq, InferError.verdict_ne_fault _⟩
  | fault f loose => exact loose.elim

theorem inferTop_verdict_raise (clear : ClearLevels level e.letDepth)
    (clear' : ClearLevels level' e.letDepth) :
    (e.inferTop level' {} {}).verdict = (e.inferTop level {} {}).verdict := by
  cases absent : e.isMissing with
  | true => simp only [inferTop, absent, if_true, Inferred.verdict]
  | false =>
    have raised : level + (level' - level) = level' := by omega
    have run := infer_raise clear (raised.symm ▸ clear') {} {}
    have empty : Supply.raise (level' - level) {} = {} := by simp [Supply.raise, Store.raise]
    rw [raised, empty, ← inferTop_present absent, ← inferTop_present absent] at run
    obtain ⟨result, supply⟩ := Prod.mk.inj run
    simp only [Inferred.verdict, result, supply, Supply.raise, typeIn_raise, Store.typeString_raise]

end Expr

/-- The levels that inference counts up from its first one make no difference, as long as they do not
    leave the words and do not meet the one that marks a generic variable. Every variable is drawn
    unbound then. -/
theorem inferTop_level_independent {e : Expr} {level level' : Int}
    (clear : ClearLevels level e.letDepth) (clear' : ClearLevels level' e.letDepth) (s s' : Store) :
    (e.inferTop level {} ⟨s, 0⟩).verdict = (e.inferTop level' {} ⟨s', 0⟩).verdict ∧
      (e.inferTop level {} ⟨s, 0⟩).verdict ≠ .fault ∧
      Supply.Steps ⟨s, 0⟩ (e.inferTop level {} ⟨s, 0⟩).supply := by
  obtain ⟨same, safe⟩ := Expr.inferTop_verdict clear s
  obtain ⟨same', -⟩ := Expr.inferTop_verdict clear' s'
  refine ⟨?_, same ▸ safe, ?_⟩
  · rw [same, same', Expr.inferTop_verdict_raise clear clear']
  · cases absent : e.isMissing with
    | true =>
      simp only [Expr.inferTop, absent, if_true]
      exact .refl
    | false =>
      have steps := ClearLevels.kept.infer {} ⟨s, 0⟩ clear
      rw [← Expr.inferTop_present absent] at steps
      exact steps

def identityFn : Expr := .fn {} [⟨{}, "x"⟩] (.var {} "x" .unresolved .missing) .missing

def reboundFn : Expr :=
  .fn {} [⟨{}, "x"⟩]
    (.letIn {} (.var {} "v")
      (.letIn {} (.var {} "g") (.var {} "x" .unresolved .missing) (.var {} "g" .unresolved .missing)
        .missing)
      (.var {} "v" .unresolved .missing) .missing)
    .missing

theorem inferTop_level_independent_rebound :
    (reboundFn.inferTop 0 {} {}).verdict = .typed "fn(a) -> a" ∧
      (reboundFn.inferTop (wordLimit - 3) {} {}).verdict = .typed "fn(a) -> a" := by
  have clear : ClearLevels 0 reboundFn.letDepth := ⟨by decide, by decide, by decide⟩
  have clear' : ClearLevels (wordLimit - 3) reboundFn.letDepth := ⟨by decide, by decide, by decide⟩
  have first : (reboundFn.inferTop 0 {} {}).verdict = .typed "fn(a) -> a" := by decide +kernel
  obtain ⟨same, -⟩ := inferTop_level_independent clear clear' {} {}
  exact ⟨first, same.symm.trans first⟩

/-- Settings may name the level that marks a generic variable, and the last one there is. The
    parameter of a function is generic from the start at the first of them. From the second on, levels
    wrap, and a binding takes the parameter around it for one of its own. -/
theorem inferTop_level_dependent :
    (∀ level ∈ [1, genericLevel, (wordLimit : Int) - 1],
      Settings.check { level } = .ok { level }) ∧
    (identityFn.inferTop 1 {} {}).verdict = .typed "fn(a) -> a" ∧
    (identityFn.inferTop genericLevel {} {}).verdict = .typed "fn(a) -> b" ∧
    (identityFn.inferTop genericLevel {} {}).supply.store.state 0 = .generic ∧
    (reboundFn.inferTop 1 {} {}).verdict = .typed "fn(a) -> a" ∧
    (reboundFn.inferTop (wordLimit - 1) {} {}).verdict = .typed "fn(a) -> b" := by
  refine ⟨?_, ?_, ?_, rfl, ?_, ?_⟩ <;> decide +kernel

end LetPoly
