import LetPoly.Proofs.Inference.Supply

namespace LetPoly

open Relation (ReflTransGen)

/-- How deep bindings are nested in the values of bindings, through the forms that are inferred. -/
def Expr.letDepth : Expr → Nat
  | .seq _ first body => max first.letDepth body.letDepth
  | .fn _ _ body _ => body.letDepth
  | .letIn _ _ value body _ => max (value.letDepth + 1) body.letDepth
  | _ => 0

def Expr.literal? : Expr → Option String
  | .int _ _ => some "Int"
  | .float _ _ => some "Float"
  | .string _ _ => some "String"
  | .atom _ _ => some "Atom"
  | _ => none

/-- Why an expression cannot be inferred, wherever it stands: it is missing, of a form that inference
    does not cover, or a binding whose left side is no plain name. -/
def Expr.flaw? : Expr → Option InferError
  | .missing => some .missingSubexpression
  | .int _ _ | .float _ _ | .string _ _ | .atom _ _ | .seq _ _ _ | .var _ _ _ _ | .fn _ _ _ _
  | .letIn _ (.var _ _) _ _ _ | .nil _ _ => none
  | .letIn pos pattern _ _ _ =>
    let form :=
      match pattern.form? with
      | some form => "Let with " ++ form ++ " pattern"
      | none => "Let with pattern"
    some (.notImplemented pos form)
  | e => some (.notImplemented e.pos e.form)

def Expr.present? : Expr → Option Expr
  | .missing => none
  | e => some e

theorem Expr.infer_flawed {e : Expr} {error : InferError} (flawed : e.flaw? = some error) (level : Int)
    (env : Bindings) (p : Supply) :
    e.infer level env p = (.error (.failed error e.present?), p) := by
  cases e with
  | letIn pos pattern value body bound => cases pattern <;> cases flawed <;> rfl
  | _ => cases flawed <;> rfl

@[elab_as_elim]
theorem Expr.flawInduction {motive : Expr → Prop}
    (literal : ∀ e name, e.literal? = some name → motive e)
    (flawed : ∀ e error, e.flaw? = some error → motive e)
    (seq : ∀ pos first body, motive first → motive body → motive (.seq pos first body))
    (var : ∀ pos name scope type, motive (.var pos name scope type))
    (fn : ∀ pos params body type, motive body → motive (.fn pos params body type))
    (letIn : ∀ pos namePos name value body bound, motive value → motive body →
      motive (.letIn pos (.var namePos name) value body bound))
    (nil : ∀ pos type, motive (.nil pos type)) : ∀ e, motive e
  | .int _ _ | .float _ _ | .string _ _ | .atom _ _ => literal _ _ rfl
  | .seq pos first body => seq pos first body
      (flawInduction literal flawed seq var fn letIn nil first)
      (flawInduction literal flawed seq var fn letIn nil body)
  | .var pos name scope type => var pos name scope type
  | .fn pos params body type => fn pos params body type
      (flawInduction literal flawed seq var fn letIn nil body)
  | .letIn pos (.var namePos name) value body bound => letIn pos namePos name value body bound
      (flawInduction literal flawed seq var fn letIn nil value)
      (flawInduction literal flawed seq var fn letIn nil body)
  | .nil pos type => nil pos type
  | .letIn _ .missing _ _ _ | .letIn _ (.discard _) _ _ _ | .letIn _ (.int _ _) _ _ _
  | .letIn _ (.tuple _ _) _ _ _ | .letIn _ (.constructor _ _ _) _ _ _
  | .missing | .call _ _ _ | .binop _ _ _ _ | .tuple _ _ | .caseOf _ _ _ | .cons _ _ _
  | .recordNil _ | .recordCons _ _ _ _ | .constructor _ _ | .select _ _ _ | .member _ _ _ =>
    flawed _ _ rfl

def Expr.Refused (e : Expr) : Prop :=
  ∃ error invalid, ∀ level env p, e.infer level env p = (.error (.failed error invalid), p)

@[elab_as_elim]
theorem Expr.inferInduction {motive : Expr → Prop}
    (literal : ∀ e name, e.literal? = some name → motive e)
    (refused : ∀ e, e.Refused → motive e)
    (seq : ∀ pos first body, motive first → motive body → motive (.seq pos first body))
    (var : ∀ pos name scope type, motive (.var pos name scope type))
    (fn : ∀ pos params body type, motive body → motive (.fn pos params body type))
    (letIn : ∀ pos namePos name value body bound, motive value → motive body →
      motive (.letIn pos (.var namePos name) value body bound))
    (nil : ∀ pos type, motive (.nil pos type)) (e : Expr) : motive e :=
  flawInduction literal (fun e error flawed => refused e ⟨error, e.present?, infer_flawed flawed⟩) seq
    var fn letIn nil e

theorem Expr.infer_literal {e : Expr} {name : String} (literal : e.literal? = some name) (level : Int)
    (env : Bindings) (p : Supply) : e.infer level env p = (.ok e, p) := by
  cases e <;> first | rfl | cases literal

namespace Expr

variable {pos namePos : Pos} {name : String} {first body value typed : Expr} {params : List Param}
  {type bound t : Ty} {level : Int} {env : Bindings} {p q : Supply}

theorem infer_seq_last (done : first.infer level env p = (.ok typed, q)) :
    ((seq pos first body).infer level env p).2 = (body.infer level env q).2 := by
  simp only [infer, done]
  split <;> rename_i rest <;> rw [rest]

theorem infer_fn_last :
    ((fn pos params body type).infer level env p).2 =
      (body.infer level (bindParams level params env p).2.1 (bindParams level params env p).2.2).2 := by
  simp only [infer]
  split
  · rename_i rest
    rw [rest]
  · rename_i rest
    rw [rest]
    split <;> rfl

theorem infer_letIn_last (done : value.infer (wrap64 (level + 1)) env p = (.ok typed, q))
    (type : typed.typeIn q.store = .ok t) :
    ((letIn pos (.var namePos name) value body bound).infer level env p).2 =
      (body.infer level (env.insert name (q.store.generalize level t).1)
        { q with store := (q.store.generalize level t).2 }).2 := by
  simp only [infer, done, type]
  split <;> rename_i rest <;> rw [rest]

end Expr

structure LevelRange (level : Int) (depth : Nat) : Prop where
  above : linkLevel < level
  below : level + depth < genericLevel

namespace LevelRange

variable {level : Int} {depth depth' : Nat}

theorem unmarked (range : LevelRange level depth) : level ≠ genericLevel ∧ level ≠ linkLevel := by
  have above := range.above
  have below := range.below
  constructor <;> omega

theorem mono (range : LevelRange level depth) (le : depth' ≤ depth) : LevelRange level depth' := by
  have below := range.below
  exact ⟨range.above, by omega⟩

theorem next (range : LevelRange level (depth + 1)) :
    wrap64 (level + 1) = level + 1 ∧ LevelRange (level + 1) depth := by
  have above := range.above
  have below := range.below
  simp only [linkLevel, genericLevel] at above below
  refine ⟨wrap64_of_isWord ?_, ?_, ?_⟩
  · simp only [IsWord, wordLimit]
    omega
  · simp only [linkLevel]
    omega
  · simp only [genericLevel]
    omega

end LevelRange

theorem Store.generalizeWithin_moves {level : Int} {R : Store → Store → Prop} (refl : ∀ s, R s s)
    (trans : ∀ s s' s'', R s s' → R s' s'' → R s s'') (mark : ∀ s, R s s.freshMissing.2)
    (name : ∀ s ref own, s.state ref = .unbound own → level < own →
      R s (s.alloc (s.cell ref).id .generic).2) (n : Nat) (t : Ty) :
    Moves (Running.state _) (fun st st' => R st.1 st'.1) (generalizeWithin level n t) := by
  induction n generalizing t with
  | zero => exact moves_pure (fun st : Store × Renaming => refl st.1) t
  | succ n ih =>
    refine replaceM_moves ?_ ?_ (fun leaf => ?_) t
    · exact fun st => refl st.1
    · exact fun st st' st'' => trans st.1 st'.1 st''.1
    cases leaf with
    | missing mark' => exact fun st => mark st.1
    | cell ref =>
      apply moves_get
      rintro ⟨store, table⟩
      cases state : store.state ref with
      | linked target =>
        simp only [state]
        exact ih target (store, table)
      | generic =>
        simp only [state]
        exact refl store
      | unbound own =>
        simp only [state]
        split
        · rename_i deeper
          cases found : table.lookup (store.cell ref).id with
          | some u =>
            simp only [Running.state, genericFor, found]
            exact refl store
          | none =>
            simp only [Running.state, genericFor, found]
            exact name store ref own state deeper
        · exact refl store

namespace Supply

variable {level : Int} {R : Supply → Supply → Prop} {Good : Int → Nat → Prop}

/-- A relation that inference keeps to whatever it does to the variables, as long as it draws them
    at good levels. A level is good for a number of nested bindings. -/
structure Kept (R : Supply → Supply → Prop) (Good : Int → Nat → Prop) : Prop where
  refl : ∀ p, R p p
  trans : ∀ {p q r}, R p q → R q r → R p r
  draw : ∀ {level depth}, Good level depth → ∀ p, R p (p.freshUnbound level).2
  name : ∀ p id, R p { p with store := (p.store.alloc id .generic).2 }
  mark : ∀ p, R p { p with store := p.store.freshMissing.2 }
  fewer : ∀ {level depth depth'}, Good level depth → depth' ≤ depth → Good level depth'
  next : ∀ {level depth}, Good level (depth + 1) → Good (wrap64 (level + 1)) depth

theorem instantiateWithin_moves (refl : ∀ p, R p p) (trans : ∀ {p q r}, R p q → R q r → R p r)
    (draw : ∀ p, R p (p.freshUnbound level).2) (n : Nat) (t : Ty) :
    Moves (Running.except Fault _) (fun st st' => R st.1 st'.1) (instantiateWithin level n t) := by
  induction n generalizing t with
  | zero => exact moves_pure (fun st : Supply × Renaming => refl st.1) t
  | succ n ih =>
    refine replaceM_moves ?_ ?_ (fun leaf => ?_) t
    · exact fun st => refl st.1
    · exact fun _ _ _ => trans
    cases leaf with
    | missing mark => exact fun st => refl st.1
    | cell ref =>
      apply moves_getThe
      rintro ⟨p, table⟩
      cases state : p.store.state ref with
      | unbound own =>
        simp only [state]
        exact refl p
      | generic =>
        simp only [state]
        cases found : table.lookup (p.store.cell ref).id with
        | some u =>
          simp only [Running.except, instanceOf, found]
          exact refl p
        | none =>
          simp only [Running.except, instanceOf, found]
          exact draw p
      | linked target =>
        simp only [state]
        cases asked : p.store.isGeneric target with
        | error f => exact refl p
        | ok b =>
          cases b with
          | true => exact ih target (p, table)
          | false => exact refl p

theorem bindParams_moves (refl : ∀ p, R p p) (trans : ∀ {p q r}, R p q → R q r → R p r)
    (draw : ∀ p, R p (p.freshUnbound level).2) (params : List Param) (env : Bindings) (p : Supply) :
    R p (bindParams level params env p).2.2 := by
  induction params generalizing env p with
  | nil => exact refl p
  | cons param params ih => exact trans (draw p) (ih _ _)

namespace Kept

theorem generalize (kept : Kept R Good) (p : Supply) (level : Int) (t : Ty) :
    R p { p with store := (p.store.generalize level t).2 } :=
  Store.generalizeWithin_moves (R := fun s s' => ∀ next, R ⟨s, next⟩ ⟨s', next⟩)
    (fun _ _ => kept.refl _) (fun _ _ _ first second next => kept.trans (first next) (second next))
    (fun _ _ => kept.mark _) (fun _ _ _ _ _ _ => kept.name _ _) p.store.depth t (p.store, [])
    p.nextId

theorem instantiate (kept : Kept R Good) (depth : Nat) (good : Good level depth) (p : Supply)
    (t : Ty) : R p (p.instantiate level t).2 :=
  instantiateWithin_moves kept.refl kept.trans (kept.draw good) p.store.depth t (p, [])

theorem infer (kept : Kept R Good) {e : Expr} (env : Bindings) (p : Supply)
    (good : Good level e.letDepth) : R p (e.infer level env p).2 := by
  induction e using Expr.inferInduction generalizing level env p with
  | literal e name literal =>
    rw [Expr.infer_literal literal]
    exact kept.refl p
  | refused e refused =>
    obtain ⟨error, invalid, run⟩ := refused
    rw [run]
    exact kept.refl p
  | seq pos first body ihFirst ihBody =>
    have steps := ihFirst env p (kept.fewer good (Nat.le_max_left _ _))
    cases run : first.infer level env p with
    | mk r q =>
      rw [run] at steps
      cases r with
      | error stop =>
        simp only [Expr.infer, run]
        exact steps
      | ok typed =>
        rw [Expr.infer_seq_last run]
        exact kept.trans steps (ihBody env q (kept.fewer good (Nat.le_max_right _ _)))
  | var pos name scope type =>
    simp only [Expr.infer]
    cases env.get? name with
    | none => exact kept.refl p
    | some scheme =>
      have steps := kept.instantiate _ good p scheme
      dsimp only
      split <;> rename_i run <;> rw [run] at steps <;> exact steps
  | fn pos params body type ih =>
    rw [Expr.infer_fn_last]
    exact kept.trans (bindParams_moves kept.refl kept.trans (kept.draw good) params env p)
      (ih _ _ good)
  | letIn pos namePos name value body bound ihValue ihBody =>
    have steps := ihValue env p (kept.next (kept.fewer good (Nat.le_max_left _ _)))
    cases run : value.infer (wrap64 (level + 1)) env p with
    | mk r q =>
      rw [run] at steps
      cases r with
      | error stop =>
        simp only [Expr.infer, run]
        exact steps
      | ok typed =>
        cases shown : typed.typeIn q.store with
        | error f =>
          simp only [Expr.infer, run, shown]
          exact steps
        | ok t =>
          rw [Expr.infer_letIn_last run shown]
          exact kept.trans (kept.trans steps (kept.generalize q level t))
            (ihBody _ _ (kept.fewer good (Nat.le_max_right _ _)))
  | nil pos type => exact kept.draw good p

end Kept

theorem steps_kept : Kept Steps LevelRange where
  refl _ := .refl
  trans := .trans
  draw range p := .single (.draw p range.unmarked)
  name p id := .single (.name p id)
  mark p := .single (.mark p)
  fewer := LevelRange.mono
  next range := by
    obtain ⟨wrapped, inner⟩ := range.next
    rw [wrapped]
    exact inner

theorem generalize_steps (p : Supply) (level : Int) (t : Ty) :
    Steps p { p with store := (p.store.generalize level t).2 } :=
  steps_kept.generalize p level t

theorem bindParams_steps (unmarked : level ≠ genericLevel ∧ level ≠ linkLevel) (params : List Param)
    (env : Bindings) (p : Supply) : Steps p (bindParams level params env p).2.2 :=
  bindParams_moves (fun _ => .refl) .trans (fun p => .single (.draw p unmarked)) params env p

theorem infer_steps {e : Expr} (env : Bindings) (p : Supply) (range : LevelRange level e.letDepth) :
    Steps p (e.infer level env p).2 :=
  steps_kept.infer env p range

end Supply

end LetPoly
