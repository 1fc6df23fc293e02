import LetPoly.Proofs.Batch.Copies
import LetPoly.Proofs.Inference.Task
import LetPoly.Proofs.Workspace.Scopes

namespace LetPoly

structure Position where
  node : Expr
  names : List String

def Position.expr? (position : Position) : Option Expr := position.node.present?

@[simp] theorem Position.expr?_mk (e : Expr) (names : List String) :
    Position.expr? ⟨e, names⟩ = e.present? := rfl

namespace Expr

mutual

/-- The places in an expression, each before those below it. A parameter is in scope in the body of
    its function, and the name of a binding in what follows it. -/
def positions (names : List String) : Expr → List Position
  | .seq pos first body =>
    ⟨.seq pos first body, names⟩ :: (first.positions names ++ body.positions names)
  | .fn pos params body type =>
    ⟨.fn pos params body type, names⟩ :: body.positions (params.map Param.name ++ names)
  | .letIn pos pattern value body bound =>
    let inner :=
      match pattern with
      | .var _ name => name :: names
      | _ => names
    ⟨.letIn pos pattern value body bound, names⟩ :: (value.positions names ++ body.positions inner)
  | .call pos callee args =>
    ⟨.call pos callee args, names⟩ :: (callee.positions names ++ positionsOfList names args)
  | .binop pos name left right =>
    ⟨.binop pos name left right, names⟩ :: (left.positions names ++ right.positions names)
  | .tuple pos elems => ⟨.tuple pos elems, names⟩ :: positionsOfList names elems
  | .caseOf pos subjects clauses =>
    ⟨.caseOf pos subjects clauses, names⟩ ::
      (positionsOfList names subjects ++ positionsOfClauses names clauses)
  | .cons pos head tail =>
    ⟨.cons pos head tail, names⟩ :: (head.positions names ++ tail.positions names)
  | .recordCons pos label value tail =>
    ⟨.recordCons pos label value tail, names⟩ :: (value.positions names ++ tail.positions names)
  | .select pos record label => ⟨.select pos record label, names⟩ :: record.positions names
  | e => [⟨e, names⟩]

def positionsOfList (names : List String) : List Expr → List Position
  | [] => []
  | e :: es => e.positions names ++ positionsOfList names es

def positionsOfClauses (names : List String) : List Clause → List Position
  | [] => []
  | .mk _ _ body :: clauses => body.positions names ++ positionsOfClauses names clauses

end

mutual

theorem nodes_positions (names : List String) :
    ∀ e : Expr, (e.positions names).filterMap Position.expr? = e.nodes
  | .seq _ first body => by
    simp [positions, nodes, present?, nodes_positions names first, nodes_positions names body]
  | .fn _ params body _ => by
    simp [positions, nodes, present?, nodes_positions _ body]
  | .letIn _ pattern value body _ => by
    simp [positions, nodes, present?, nodes_positions names value, nodes_positions _ body]
  | .call _ callee args => by
    simp [positions, nodes, present?, nodes_positions names callee, nodes_positionsOfList names args]
  | .binop _ _ left right => by
    simp [positions, nodes, present?, nodes_positions names left, nodes_positions names right]
  | .tuple _ elems => by
    simp [positions, nodes, present?, nodes_positionsOfList names elems]
  | .caseOf _ subjects clauses => by
    simp [positions, nodes, present?, nodes_positionsOfList names subjects,
      nodes_positionsOfClauses names clauses]
  | .cons _ head tail => by
    simp [positions, nodes, present?, nodes_positions names head, nodes_positions names tail]
  | .recordCons _ _ value tail => by
    simp [positions, nodes, present?, nodes_positions names value, nodes_positions names tail]
  | .select _ record _ => by
    simp [positions, nodes, present?, nodes_positions names record]
  | .missing | .int _ _ | .float _ _ | .string _ _ | .atom _ _ | .var _ _ _ _ | .nil _ _
  | .recordNil _ | .constructor _ _ | .member _ _ _ => rfl

theorem nodes_positionsOfList (names : List String) :
    ∀ es : List Expr, (positionsOfList names es).filterMap Position.expr? = nodesOfList es
  | [] => rfl
  | e :: es => by
    simp [positionsOfList, nodesOfList, nodes_positions names e, nodes_positionsOfList names es]

theorem nodes_positionsOfClauses (names : List String) :
    ∀ clauses : List Clause,
      (positionsOfClauses names clauses).filterMap Position.expr? = nodesOfClauses clauses
  | [] => rfl
  | .mk _ _ body :: clauses => by
    simp [positionsOfClauses, nodesOfClauses, nodes_positions names body,
      nodes_positionsOfClauses names clauses]

end

theorem positions_eq_cons (e : Expr) (names : List String) :
    ∃ below, e.positions names = ⟨e, names⟩ :: below := by
  cases e <;> simp [positions]

end Expr

namespace Position

def offends (position : Position) : Bool :=
  match position.node with
  | .var _ name _ _ => !position.names.contains name
  | node => node.flaw?.isSome

/-- What is reported for a place. An unknown name comes with those in scope, in order. -/
structure Reported (position : Position) (error : InferError) (invalid : Option Expr) : Prop where
  invalid_eq : invalid = position.expr?
  cause :
    match position.node with
    | .var pos name _ _ => ∃ visible, error = .unknownVariable pos name visible ∧
        visible.names.Pairwise (· < ·) ∧ ∀ other, other ∈ visible.names ↔ other ∈ position.names
    | node => node.flaw? = some error

end Position

structure Bindings.Scopes (env : Bindings) (names : List String) : Prop where
  increasing : env.names.Pairwise (· < ·)
  mem_iff : ∀ name, name ∈ env.names ↔ name ∈ names

theorem Bindings.Scopes.insert {env : Bindings} {names : List String} (scopes : env.Scopes names)
    (name : String) (t : Ty) : Bindings.Scopes (env.insert name t) (name :: names) := by
  refine ⟨Index.increasing_insertInto name t env.entries scopes.increasing, fun other => ?_⟩
  rw [Index.mem_names_iff, Index.get?_insert, List.mem_cons, ← scopes.mem_iff, Index.mem_names_iff]
  split
  · rename_i same
    simp [same]
  · rename_i different
    simp [different]

def Unlinked (level : Int) (depth : Nat) : Prop :=
  ∀ k : Nat, k ≤ depth → wrap64 (level + k) ≠ linkLevel

namespace Unlinked

variable {level : Int} {depth depth' : Nat}

theorem here (unlinked : Unlinked level depth) : level ≠ linkLevel := by
  rintro rfl
  exact unlinked 0 (Nat.zero_le depth) (by decide)

theorem mono (unlinked : Unlinked level depth) (le : depth' ≤ depth) : Unlinked level depth' :=
  fun k less => unlinked k (Nat.le_trans less le)

theorem next (unlinked : Unlinked level (depth + 1)) : Unlinked (wrap64 (level + 1)) depth := by
  intro k less
  rw [wrap64_next_add]
  exact unlinked (k + 1) (by omega)

theorem of_far (nonneg : 0 ≤ level) (far : level + depth < (wordCount : Int) + linkLevel) :
    Unlinked level depth := by
  intro k le
  apply wrap64_add_ne_linkLevel
  · simp only [linkLevel]
    omega
  · omega

end Unlinked

inductive Answers : Option Position → Except Stop Expr × Supply → Prop
  | typed {typed : Expr} {q : Supply} {t : Ty} (type : typed.typeIn q.store = .ok t)
    (complete : q.store.Complete t) : Answers none (.ok typed, q)
  | failed {position : Position} {error : InferError} {invalid : Option Expr} {q : Supply}
    (reported : position.Reported error invalid) :
    Answers (some position) (.error (.failed error invalid), q)

theorem Answers.andThen {found found' : Option Position} {r : Except Stop Expr × Supply}
    {next : Expr → Supply → Except Stop Expr × Supply} (first : Answers found r)
    (second : ∀ typed q t, r = (.ok typed, q) → typed.typeIn q.store = .ok t → q.store.Complete t →
      Answers found' (next typed q)) : Answers (found.or found') (Expr.andThen r next) := by
  cases first with
  | typed type complete => exact second _ _ _ rfl type complete
  | failed reported => exact .failed reported

theorem Answers.finish {found : Option Position} {r : Except Stop Expr × Supply}
    {next : Expr → Supply → Except Stop Expr × Supply} (first : Answers found r)
    (last : ∀ typed q t, r = (.ok typed, q) → typed.typeIn q.store = .ok t → q.store.Complete t →
      Answers none (next typed q)) : Answers found (Expr.andThen r next) := by
  have answers := first.andThen last
  rwa [Option.or_none] at answers

theorem complete_freshUnbound {level : Int} (unlinked : level ≠ linkLevel) (p : Supply) :
    (p.freshUnbound level).2.store.Complete (p.freshUnbound level).1 := by
  have size : (p.freshUnbound level).2.store.size = p.store.size + 1 := Store.size_alloc _ _ _
  apply Store.Complete.of_plain (size ▸ Nat.lt_succ_self _)
  intro target linked
  have state : (p.freshUnbound level).2.store.state p.store.size = .ofLevel level :=
    Store.state_alloc_self _ _ _
  exact unlinked (VarState.ofLevel_eq_linked (state ▸ linked)).1

theorem bindParams_scopes {level : Int} (unlinked : level ≠ linkLevel) (params : List Param)
    {env : Bindings} {p : Supply} {names : List String} (closed : p.store.Closed env)
    (scopes : env.Scopes names) :
    let r := bindParams level params env p
    p.store.Extends r.2.2.store ∧ r.2.2.store.Closed r.2.1 ∧
      r.2.1.Scopes (params.map Param.name ++ names) ∧ ∀ t ∈ r.1, r.2.2.store.Complete t := by
  induction params generalizing env p names with
  | nil => exact ⟨.refl _, closed, scopes, fun t member => by cases member⟩
  | cons param params ih =>
    have grown : p.store.Extends (p.freshUnbound level).2.store := Store.extends_alloc _ _ _
    have fresh := complete_freshUnbound unlinked p
    obtain ⟨grown', closed', scopes', complete⟩ := ih ((closed.extend grown).insert fresh)
      (scopes.insert param.name (p.freshUnbound level).1)
    refine ⟨grown.trans grown', closed', ⟨scopes'.increasing, fun name => ?_⟩, ?_⟩
    · rw [bindParams, scopes'.mem_iff]
      simp only [List.mem_append, List.mem_cons, List.map_cons]
      rw [or_left_comm, or_assoc]
    · exact List.forall_mem_cons.mpr ⟨fresh.extend grown', complete⟩

namespace Expr

variable {e : Expr} {level : Int} {env : Bindings} {p : Supply} {names : List String}

theorem infer_grows {q : Supply} {result : Except Stop Expr}
    (run : e.infer level env p = (result, q)) : p.store.Extends q.store := by
  have grown : p.store.Extends (e.infer level env p).2.store :=
    (Supply.grown_kept.infer env p True.intro).kept
  rwa [run] at grown

theorem answers_flawed {error : InferError} (flawed : e.flaw? = some error) :
    Answers ((e.positions names).find? Position.offends) (e.infer level env p) := by
  obtain ⟨below, places⟩ := e.positions_eq_cons names
  have offends : (⟨e, names⟩ : Position).offends = true := by
    cases e with
    | var => cases flawed
    | _ => simp [Position.offends, flawed]
  -- the flaw stands before all that is below it, and nothing below is looked at
  rw [places, List.find?_cons_of_pos offends, infer_flawed flawed]
  apply Answers.failed
  refine ⟨rfl, ?_⟩
  cases e with
  | var => cases flawed
  | _ => exact flawed

theorem answers_literal {name : String} (literal : e.literal? = some name) :
    Answers ((e.positions names).find? Position.offends) (e.infer level env p) := by
  rw [infer_literal literal]
  cases e <;> cases literal <;> exact .typed rfl (.of_parts rfl fun part member => by cases member)

theorem answers_var {pos : Pos} {name : String} {scope : Scope} {type : Ty}
    (unlinked : level ≠ linkLevel) (closed : p.store.Closed env) (scopes : env.Scopes names) :
    Answers (((Expr.var pos name scope type).positions names).find? Position.offends)
      ((Expr.var pos name scope type).infer level env p) := by
  have known := scopes.mem_iff name
  rw [Index.mem_names_iff] at known
  cases bound : env.get? name with
  | none =>
    have unknown : name ∉ names := by simpa [bound] using known
    have offends : (⟨.var pos name scope type, names⟩ : Position).offends = true := by
      simp [Position.offends, unknown]
    simp only [positions, List.find?_cons_of_pos offends, infer, bound]
    exact .failed ⟨rfl, env, rfl, scopes.increasing, scopes.mem_iff⟩
  | some scheme =>
    have member : name ∈ names := by simpa [bound] using known
    have harmless : (⟨.var pos name scope type, names⟩ : Position).offends = false := by
      simp [Position.offends, member]
    obtain ⟨_, u, q, run, opens⟩ := Supply.instantiate_opens unlinked (closed name scheme bound)
    simp only [positions, List.find?_cons, harmless, List.find?_nil, infer, bound, run]
    exact .typed rfl (Store.Reads.head opens.reads).complete

theorem infer_answers (unlinked : Unlinked level e.letDepth) (closed : p.store.Closed env)
    (scopes : env.Scopes names) :
    Answers ((e.positions names).find? Position.offends) (e.infer level env p) := by
  induction e using Expr.flawInduction generalizing level env p names with
  | literal e name literal => exact answers_literal literal
  | flawed e error flawed => exact answers_flawed flawed
  | seq pos first body ihFirst ihBody =>
    have harmless : (⟨.seq pos first body, names⟩ : Position).offends = false := rfl
    rw [positions, List.find?_cons, harmless, List.find?_append, infer_seq]
    apply (ihFirst (unlinked.mono (Nat.le_max_left _ _)) closed scopes).andThen
    intro typed q t run _ _
    have closed := closed.extend (infer_grows run)
    apply (ihBody (unlinked.mono (Nat.le_max_right _ _)) closed scopes).finish
    intro typed' r t' _ type complete
    exact .typed type complete
  | var pos name scope type => exact answers_var unlinked.here closed scopes
  | fn pos params body type ih =>
    have harmless : (⟨.fn pos params body type, names⟩ : Position).offends = false := rfl
    obtain ⟨-, closed', scopes', types⟩ := bindParams_scopes unlinked.here params closed scopes
    rw [positions, List.find?_cons, harmless, infer_fn]
    apply (ih unlinked closed' scopes').finish
    intro typed q t run type complete
    simp only [type]
    apply Answers.typed rfl
    apply Store.Complete.of_parts rfl
    intro part member
    rcases List.mem_append.mp member with member | member
    · exact (types part member).extend (infer_grows run)
    · rw [List.mem_singleton.mp member]
      exact complete
  | letIn pos namePos name value body bound ihValue ihBody =>
    have harmless : (⟨.letIn pos (.var namePos name) value body bound, names⟩ : Position).offends =
        false := rfl
    have deeper : Unlinked level (value.letDepth + 1) := unlinked.mono (Nat.le_max_left _ _)
    rw [positions, List.find?_cons, harmless, List.find?_append, infer_letIn]
    apply (ihValue deeper.next closed scopes).andThen
    intro typed q t run type complete
    simp only [type]
    obtain ⟨grown, reads⟩ := Store.generalize_spec level complete
    have closed := (closed.extend (infer_grows run)).extend grown
    apply (ihBody (unlinked.mono (Nat.le_max_right _ _)) (closed.insert reads.complete)
      (scopes.insert name _)).finish
    intro typed' r t' _ type complete
    exact .typed type complete
  | nil pos type =>
    apply Answers.typed rfl
    apply Store.Complete.of_parts rfl
    intro part member
    rw [List.mem_singleton.mp member]
    exact complete_freshUnbound unlinked.here p

end Expr

/-- Inference succeeds exactly if no place of the expression offends. It fails at the first place that
    does, in the order of the nodes. Levels are counted up by one for the value of a binding, and are
    not counted around to the one that marks a link. -/
theorem inferTop_first_offence {e : Expr} {level : Int} {env : Bindings} {p : Supply}
    (closed : p.store.Closed env) (increasing : env.names.Pairwise (· < ·)) (nonneg : 0 ≤ level)
    (far : level + e.letDepth < (wordCount : Int) + linkLevel) :
    let places := e.positions env.names
    let r := e.inferTop level env p
    places.filterMap Position.expr? = e.nodes ∧
      ((∃ typed, r.result = .ok typed) ↔ ∀ place ∈ places, place.offends = false) ∧
      (∀ typed, r.result = .ok typed → r.context = {}) ∧
      ∀ place, places.find? Position.offends = some place →
        ∃ error invalid, r.result = .error (.failed error invalid) ∧
          r.context = ⟨some error, invalid⟩ ∧
          if e.isMissing then error = .missingExpression ∧ invalid = none
          else place.Reported error invalid := by
  intro places r
  have harmless : (∀ place ∈ places, place.offends = false) ↔ places.find? Position.offends = none := by
    simp
  rw [harmless]
  refine ⟨Expr.nodes_positions env.names e, ?_⟩
  cases absent : e.isMissing with
  | true =>
    -- nothing is inferred at all, and the error is one of its own
    cases e with
    | missing =>
      have offends : places.find? Position.offends = some ⟨.missing, env.names⟩ := rfl
      rw [offends]
      simp [r, Expr.inferTop, Expr.isMissing]
    | _ => cases absent
  | false =>
    have answers : Answers (places.find? Position.offends) (e.infer level env p) :=
      Expr.infer_answers (.of_far nonneg far) closed ⟨increasing, fun name => Iff.rfl⟩
    simp only [r, Expr.inferTop, absent, Bool.false_eq_true, if_false]
    generalize places.find? Position.offends = found, e.infer level env p = ran at answers
    cases answers with
    | typed => simp
    | failed reported => simpa using reported

def unboundValue : Expr :=
  .letIn ⟨1, 1⟩ (.var {} "f") (.fn {} [⟨{}, "x"⟩] (.var {} "x" .unresolved .missing) .missing)
    (.seq ⟨2, 1⟩ (.var ⟨2, 2⟩ "f" .unresolved .missing)
      (.letIn ⟨3, 1⟩ (.var {} "g") (.var ⟨3, 9⟩ "g" .unresolved .missing)
        (.seq ⟨4, 1⟩ .missing
          (.letIn ⟨5, 1⟩ (.discard {}) (.var ⟨5, 9⟩ "x" .unresolved .missing) .missing .missing))
        .missing))
    .missing

def unboundValueEnv : Bindings := ({} : Bindings).insert "one" .int

def unhandledCall : Expr :=
  .fn {} [⟨{}, "f"⟩]
    (.seq ⟨1, 4⟩ (.var ⟨1, 5⟩ "f" .unresolved .missing)
      (.call ⟨2, 3⟩ (.var ⟨2, 5⟩ "f" .unresolved .missing) [.var ⟨2, 7⟩ "y" .unresolved .missing]))
    .missing

theorem inferTop_first_offence_unbound :
    let r := unboundValue.inferTop 1 unboundValueEnv {}
    let node := Expr.var ⟨3, 9⟩ "g" .unresolved .missing
    let r' := unhandledCall.inferTop 1 unboundValueEnv {}
    let call := Expr.call ⟨2, 3⟩ (.var ⟨2, 5⟩ "f" .unresolved .missing)
      [.var ⟨2, 7⟩ "y" .unresolved .missing]
    ({} : Store).Closed unboundValueEnv ∧ unboundValueEnv.names = ["one"] ∧
      (∃ visible, r.result = .error (.failed (.unknownVariable ⟨3, 9⟩ "g" visible) (some node)) ∧
        r.context = ⟨some (.unknownVariable ⟨3, 9⟩ "g" visible), some node⟩ ∧
        visible.names.Pairwise (· < ·) ∧ ∀ name, name ∈ visible.names ↔ name ∈ ["f", "one"]) ∧
      r'.result = .error (.failed (.notImplemented ⟨2, 3⟩ "Call") (some call)) ∧
      r'.context = ⟨some (.notImplemented ⟨2, 3⟩ "Call"), some call⟩ := by
  intro r node r' call
  have closed : ({} : Store).Closed unboundValueEnv := by
    apply Store.Closed.insert
    · intro name t bound
      cases bound
    · exact .of_parts rfl fun part member => by cases member
  obtain ⟨-, -, -, fails⟩ := inferTop_first_offence (e := unboundValue) (p := {}) closed (by decide)
    (show 0 ≤ 1 by decide) (by decide)
  obtain ⟨error, invalid, result, context, reported⟩ := fails _ rfl
  obtain ⟨rfl, visible, rfl, increasing, same⟩ := reported
  obtain ⟨-, -, -, fails'⟩ := inferTop_first_offence (e := unhandledCall) (p := {}) closed (by decide)
    (show 0 ≤ 1 by decide) (by decide)
  obtain ⟨error', invalid', result', context', reported'⟩ := fails' _ rfl
  obtain ⟨rfl, cause⟩ := reported'
  cases cause
  exact ⟨closed, rfl, ⟨visible, result, context, increasing, same⟩, result', context'⟩

end LetPoly
