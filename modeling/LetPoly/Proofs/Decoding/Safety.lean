import LetPoly.Proofs.Batch.Results
import LetPoly.Proofs.Decoding.Nesting
import LetPoly.Proofs.Inference.Sound

namespace LetPoly

open Yaml (Node)

namespace Pattern

mutual

def whole : Pattern → Bool
  | .missing => false
  | .tuple _ elems => wholeList elems
  | .constructor _ _ args => wholeList args
  | _ => true

def wholeList : List Pattern → Bool
  | [] => true
  | p :: ps => p.whole && wholeList ps

end

end Pattern

namespace Expr

mutual

def whole : Expr → Bool
  | .missing => false
  | .seq _ first body => first.whole && body.whole
  | .fn _ _ body _ => body.whole
  | .letIn _ pattern value body _ => pattern.whole && value.whole && body.whole
  | .call _ callee args => callee.whole && wholeList args
  | .binop _ _ left right => left.whole && right.whole
  | .tuple _ elems => wholeList elems
  | .caseOf _ subjects clauses => wholeList subjects && wholeClauses clauses
  | .cons _ head tail => head.whole && tail.whole
  | .recordCons _ _ value tail => value.whole && tail.whole
  | .select _ record _ => record.whole
  | _ => true

def wholeList : List Expr → Bool
  | [] => true
  | e :: es => e.whole && wholeList es

def wholeClauses : List Clause → Bool
  | [] => true
  | .mk _ patterns body :: clauses => Pattern.wholeList patterns && body.whole && wholeClauses clauses

end

end Expr

/-! What the decoder accepts is whole. -/

namespace Pattern

variable {R : Node → Pattern → Prop} {n : Node} {p : Pattern} {items : List Node}

theorem wholeList_of_each {parts : List Pattern} (each : ∀ {m p}, R m p → p.whole = true)
    (related : List.Forall₂ R items parts) : wholeList parts = true := by
  induction related with
  | nil => rfl
  | cons one _ ih => simp only [wholeList, each one, ih, Bool.and_self]

theorem Form.whole (form : Form R n p) (each : ∀ {m p}, R m p → p.whole = true) :
    p.whole = true := by
  cases form with
  | discard | var | int | constant => rfl
  | tuple key list parts => exact wholeList_of_each each parts
  | constructor key ofName text list parts => exact wholeList_of_each each parts

theorem whole_of_ofNodeWithin {fuel : Nat} (done : ofNodeWithin fuel n = .ok p) :
    p.whole = true := by
  induction fuel generalizing n p with
  | zero => cases done
  | succ fuel ih => exact (ofNodeWithin_eq_ok_iff.mp done).whole ih

theorem Denotes.whole (denotes : Denotes n p) : p.whole = true :=
  whole_of_ofNodeWithin (ofNode_eq_ok_iff.mpr denotes)

end Pattern

namespace Expr

variable {R : Node → Expr → Prop} {n : Node} {e : Expr} {items : List Node}

theorem wholeList_of_each {parts : List Expr} (each : ∀ {m e}, R m e → e.whole = true)
    (related : List.Forall₂ R items parts) : wholeList parts = true := by
  induction related with
  | nil => rfl
  | cons one _ ih => simp only [wholeList, each one, ih, Bool.and_self]

theorem wholeClauses_of_each {clauses : List Clause} (each : ∀ {m e}, R m e → e.whole = true)
    (related : List.Forall₂ (Branch R) items clauses) : wholeClauses clauses = true := by
  induction related with
  | nil => rfl
  | cons one _ ih =>
    cases one with
    | intro ofPatterns list patterns ofBody one =>
      have patterns := Pattern.wholeList_of_each Pattern.Denotes.whole patterns
      simp only [wholeClauses, patterns, each one, ih, Bool.and_self]

theorem Run.whole (run : Run R items e) (each : ∀ {m e}, R m e → e.whole = true) :
    e.whole = true := by
  induction run with
  | last one => exact each one
  | next one _ ih => simp only [Expr.whole, each one, ih, Bool.and_self]

theorem Fields.whole {pos : Pos} (fields : Fields R items pos e)
    (each : ∀ {m e}, R m e → e.whole = true) : e.whole = true := by
  induction fields with
  | done => rfl
  | next ofLabel text ofValue one _ ih => simp only [Expr.whole, each one, ih, Bool.and_self]

theorem Binds.whole {v : Node} {p : Pattern} (binds : Binds v p) : p.whole = true := by
  cases binds with
  | name => rfl
  | pattern unnamed ofPattern denotes => exact denotes.whole

theorem Form.whole (form : Form R n e) (each : ∀ {m e}, R m e → e.whole = true) :
    e.whole = true := by
  cases form with
  | int | float | string | atom | var | nil | constructor | member => rfl
  | seq key list run => exact run.whole each
  | fn key ofArgs list params ofBody one =>
    have body := each one
    exact body
  | letIn key binds ofValue one ofBody other =>
    simp only [Expr.whole, binds.whole, each one, each other, Bool.and_self]
  | call key ofCallee one list args =>
    simp only [Expr.whole, each one, wholeList_of_each each args, Bool.and_self]
  | tuple key list elems => exact wholeList_of_each each elems
  | binop key ofOp text ofLeft one ofRight other =>
    simp only [Expr.whole, each one, each other, Bool.and_self]
  | cons key ofHead one ofTail other =>
    simp only [Expr.whole, each one, each other, Bool.and_self]
  | caseOf key ofSubjects list subjects ofClauses list' clauses =>
    simp only [Expr.whole, wholeList_of_each each subjects, wholeClauses_of_each each clauses,
      Bool.and_self]
  | record key list fields => exact fields.whole each
  | select key ofRecord one ofLabel text =>
    have record := each one
    exact record

theorem whole_of_ofNodeWithin {fuel : Nat} (done : ofNodeWithin fuel n = .ok e) :
    e.whole = true := by
  induction fuel generalizing n e with
  | zero => cases done
  | succ fuel ih => exact (ofNodeWithin_eq_ok_iff.mp done).whole ih

end Expr

/-- One of the two errors that tell about the expression itself. -/
inductive InferError.Reported : InferError → Prop
  | unknownVariable (pos : Pos) (name : String) (visible : Bindings) :
    Reported (.unknownVariable pos name visible)
  | notImplemented (pos : Pos) (form : String) : Reported (.notImplemented pos form)

theorem Expr.infer_reported {e : Expr} {level : Int} {env : Bindings} {p : Supply}
    (whole : e.whole = true) {error : InferError} {invalid : Option Expr}
    (fails : (e.infer level env p).1 = .error (.failed error invalid)) : error.Reported := by
  fun_induction Expr.infer e level env p with
  | case1 => cases whole
  | case2 | case3 | case4 | case5 | case8 | case10 | case11 | case13 | case14 | case16 | case18
  | case20 => cases fails
  | case6 pos first body level env p stop q ran ih =>
    simp only [Expr.whole, Bool.and_eq_true] at whole
    rw [ran] at ih
    exact ih whole.1 fails
  | case7 pos first body level env p first' q done stop r ran _ ih =>
    simp only [Expr.whole, Bool.and_eq_true] at whole
    rw [ran] at ih
    exact ih whole.2 fails
  | case9 pos name scope type level env p unbound =>
    cases fails
    exact .unknownVariable pos name env
  | case12 pos params body type level env p types inner q bound stop r ran ih =>
    rw [ran] at ih
    exact ih whole fails
  | case15 pos namePos name value body bound level env p stop q ran ih =>
    simp only [Expr.whole, Bool.and_eq_true] at whole
    rw [ran] at ih
    exact ih whole.1.2 fails
  | case17 pos namePos name value body bound level env p value' q done t type scheme store made stop r
      ran _ ih =>
    simp only [Expr.whole, Bool.and_eq_true] at whole
    rw [ran] at ih
    exact ih whole.2 fails
  | case19 pos pattern value body bound =>
    cases fails
    exact .notImplemented pos _
  | case21 e =>
    cases fails
    exact .notImplemented _ _

theorem Store.complete_of_leaves {s : Store} {t : Ty}
    (each : ∀ leaf ∈ t.leaves, s.Complete leaf.toTy) : s.Complete t := by
  refine .intro (fun leaf met => ?_) fun ref target met linked => ?_
  · exact (each leaf met).holds leaf (by simp)
  · exact (each _ met).target linked

theorem Mirror.Lies.complete {m : Mirror} {s s' : Store} {t : Ty} (lies : m.Lies s s')
    (strict : ¬ m.loose) (own : ∀ leaf ∈ t.leaves, m.OwnLeaf s.size leaf) : s.Complete t := by
  have facing := lies.own_facing (Nat.le_refl s.size)
  have each : ∀ leaf, m.OwnLeaf s.size leaf → s.Complete leaf.toTy := by
    refine facing.induction ?_ ?_ ?_
    · intro mark loose
      exact absurd loose strict
    · intro ref here plain
      exact .of_plain (lies.new_of_plain here plain).2 plain
    · intro ref target here linked ih
      exact .of_link (Store.lt_size_of_linked linked) linked (Store.complete_of_leaves ih)
  exact Store.complete_of_leaves fun leaf met => each leaf (own leaf met)

theorem Mirror.Lies.typed_nodes {m : Mirror} {s s' : Store} {e e' : Expr} (lies : m.Lies s s')
    (strict : ¬ m.loose) (alike : e.Alike (m.Own s.size) e') :
    ∀ node ∈ e.nodes, ∃ t, node.typeIn s = .ok t ∧ s.Complete t := by
  intro node member
  have nodes := typeIn_nodes (lies.own_facing (Nat.le_refl _)) alike
  obtain ⟨node', -, t, t', known, -, own⟩ := exists_of_forall₂ nodes.flip member
  exact ⟨t, known, lies.complete strict own.own⟩

theorem Expr.unlinked_of_ofText {text : String} {e : Expr} {level : Int}
    (fits : text.length < wordLimit) (read : Expr.ofText text = .ok e) (nonneg : 0 ≤ level)
    (word : IsWord level) : ∀ k ≤ e.letDepth, wrap64 (level + k) ≠ linkLevel := by
  intro k le
  have room := Expr.letDepth_le_of_ofText read
  simp only [wordLimit, IsWord] at word fits
  apply wrap64_add_ne_linkLevel
  · simp only [linkLevel]
    omega
  · simp only [wordCount, linkLevel]
    omega

theorem Expr.infer_safe {e : Expr} {level : Int} (s : Store) (whole : e.whole = true)
    (levels : ∀ k ≤ e.letDepth, wrap64 (level + k) ≠ linkLevel) :
    let r := e.inferTop level {} ⟨s, 0⟩
    (∃ typed, r.result = .ok typed ∧ typed.erase = e.erase ∧ ∀ node ∈ typed.nodes,
      ∃ t, node.typeIn r.supply.store = .ok t ∧ r.supply.store.Complete t) ∨
    ∃ error invalid, r.result = .error (.failed error invalid) ∧ error.Reported := by
  intro r
  have present : e.isMissing = false := by
    cases e <;> first | rfl | cases whole
  have run : (r.result, r.supply) = e.infer level {} ⟨s, 0⟩ := inferTop_present present level {} _
  -- the run as a copy of itself, where nothing may be missing
  let b : Batch := ⟨⟨s, 0⟩, level, {}⟩
  have word : IsWord 0 := by decide
  have twin : (b.mirror False 0 0).Twin ⟨s, 0⟩ ⟨s, b.firstId 0⟩ :=
    Batch.mirror_twin word (.refl s) rfl
  have scopes : Bindings.Alike ((b.mirror False 0 0).Scheme s.size) {} {} :=
    b.mirror_scopes (fun entry member => by cases member) s.size
  obtain ⟨twin, -, outcomes⟩ := twin.infer scopes levels
  rw [← run] at twin outcomes
  generalize outcome : r.result = result at outcomes
  generalize (e.infer level {} ⟨s, b.firstId 0⟩).1 = result' at outcomes
  cases outcomes with
  | ok alike =>
    rename_i typed typed'
    rw [outcome] at run
    exact .inl ⟨typed, rfl, (infer_erase run.symm).1, twin.lies.typed_nodes id alike⟩
  | failed invalid alike =>
    rename_i error error'
    have fails : (e.infer level {} ⟨s, 0⟩).1 = .error (.failed error invalid) := by
      rw [← run, outcome]
    exact .inr ⟨error, invalid, rfl, infer_reported whole fails⟩
  | fault f loose => exact loose.elim

/-- What a document holds is whole, and is inferred in an empty scope without a fault. -/
theorem ofText_infer_safe {text : String} {e : Expr} {level : Int} (s : Store)
    (fits : text.length < wordLimit) (read : Expr.ofText text = .ok e) (nonneg : 0 ≤ level)
    (word : IsWord level) :
    e.whole = true ∧
      let r := e.inferTop level {} ⟨s, 0⟩
      (∃ typed, r.result = .ok typed ∧ typed.erase = e.erase ∧ ∀ node ∈ typed.nodes,
        ∃ t, node.typeIn r.supply.store = .ok t ∧ r.supply.store.Complete t) ∨
      ∃ error invalid, r.result = .error (.failed error invalid) ∧ error.Reported := by
  obtain ⟨n, -, decoded⟩ := Expr.ofText_eq_ok_iff.mp read
  have whole := Expr.whole_of_ofNodeWithin decoded
  exact ⟨whole, Expr.infer_safe s whole (Expr.unlinked_of_ofText fits read nonneg word)⟩

def identityText : String := "let: {name: f, value: {fn: {args: [x], body: {var: x}}}, then: {var: f}}"

theorem ofText_infer_safe_identity :
    ∃ e, Expr.ofText identityText = .ok e ∧ e.letDepth = 1 ∧ e.whole = true ∧
      let r := e.inferTop (wordLimit - 1) {} ⟨{}, 0⟩
      (∃ typed, r.result = .ok typed ∧ typed.erase = e.erase ∧ ∀ node ∈ typed.nodes,
        ∃ t, node.typeIn r.supply.store = .ok t ∧ r.supply.store.Complete t) ∨
      ∃ error invalid, r.result = .error (.failed error invalid) ∧ error.Reported := by
  have found : (Expr.ofText identityText).toOption.map Expr.letDepth = some 1 := by decide +kernel
  cases read : Expr.ofText identityText with
  | error err =>
    rw [read] at found
    cases found
  | ok e =>
    rw [read] at found
    refine ⟨e, rfl, Option.some.inj found, ?_⟩
    exact ofText_infer_safe {} (by decide +kernel) read (by decide) (by decide)

end LetPoly
