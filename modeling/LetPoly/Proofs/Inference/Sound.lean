import LetPoly.Inference.Context
import LetPoly.Proofs.Inference.Task

namespace LetPoly

namespace Expr

variable {pos namePos : Pos} {name : String} {scope : Scope} {type bound : Ty} {params : List Param}
  {e first body value typed : Expr} {level : Int} {env : Bindings} {p q : Supply}

theorem infer_seq_ok (ok : (seq pos first body).infer level env p = (.ok typed, q)) :
    ∃ first' p' body', first.infer level env p = (.ok first', p') ∧
      body.infer level env p' = (.ok body', q) ∧ typed = .seq pos first' body' := by
  simp only [infer] at ok
  split at ok
  · cases ok
  · rename_i first' p' done
    split at ok
    · cases ok
    · rename_i body' p'' done'
      cases ok
      exact ⟨first', p', body', done, done', rfl⟩

theorem infer_var_ok (ok : (var pos name scope type).infer level env p = (.ok typed, q)) :
    ∃ scheme type', env.get? name = some scheme ∧ p.instantiate level scheme = (.ok type', q) ∧
      typed = .var pos name .bound type' := by
  simp only [infer] at ok
  split at ok
  · cases ok
  · rename_i scheme found
    split at ok
    · cases ok
    · rename_i type' p' run
      cases ok
      exact ⟨scheme, type', found, run, rfl⟩

theorem infer_fn_ok (ok : (fn pos params body type).infer level env p = (.ok typed, q)) :
    ∃ body' result,
      body.infer level (bindParams level params env p).2.1 (bindParams level params env p).2.2 =
        (.ok body', q) ∧
      body'.typeIn q.store = .ok result ∧
      typed = .fn pos params body' (.fn (bindParams level params env p).1 result) := by
  simp only [infer] at ok
  split at ok
  · cases ok
  · rename_i body' p' done
    split at ok
    · cases ok
    · rename_i result type
      cases ok
      exact ⟨body', result, done, type, rfl⟩

theorem infer_letIn_ok
    (ok : (letIn pos (.var namePos name) value body bound).infer level env p = (.ok typed, q)) :
    ∃ value' p' t body', value.infer (wrap64 (level + 1)) env p = (.ok value', p') ∧
      value'.typeIn p'.store = .ok t ∧
      body.infer level (env.insert name (p'.store.generalize level t).1)
        { p' with store := (p'.store.generalize level t).2 } = (.ok body', q) ∧
      typed = .letIn pos (.var namePos name) value' body' (p'.store.generalize level t).1 := by
  simp only [infer] at ok
  split at ok
  · cases ok
  · rename_i value' p' done
    split at ok
    · cases ok
    · rename_i t type
      split at ok
      · cases ok
      · rename_i body' p'' done'
        cases ok
        exact ⟨value', p', t, body', done, type, done', rfl⟩

theorem infer_erase (ok : e.infer level env p = (.ok typed, q)) :
    typed.erase = e.erase ∧
      ∀ pos name scope type, .var pos name scope type ∈ typed.nodes → scope = .bound := by
  induction e using Expr.inferInduction generalizing level env p q typed with
  | literal e name literal =>
    rw [infer_literal literal] at ok
    cases ok
    refine ⟨rfl, fun pos name scope type member => ?_⟩
    cases e <;> cases literal <;> cases member <;> contradiction
  | refused e refused =>
    obtain ⟨error, invalid, run⟩ := refused
    rw [run] at ok
    cases ok
  | seq pos first body ihFirst ihBody =>
    obtain ⟨first', p', body', done, done', rfl⟩ := infer_seq_ok ok
    obtain ⟨same, scopes⟩ := ihFirst done
    obtain ⟨same', scopes'⟩ := ihBody done'
    refine ⟨by simp only [erase, same, same'], fun pos name scope type member => ?_⟩
    simp only [nodes, List.mem_cons, reduceCtorEq, false_or, List.mem_append] at member
    rcases member with member | member
    · exact scopes pos name scope type member
    · exact scopes' pos name scope type member
  | var pos name scope type =>
    obtain ⟨scheme, type', found, run, rfl⟩ := infer_var_ok ok
    refine ⟨rfl, fun pos name scope type member => ?_⟩
    cases List.mem_singleton.mp member
    rfl
  | fn pos params body type ih =>
    obtain ⟨body', result, done, type, rfl⟩ := infer_fn_ok ok
    obtain ⟨same, scopes⟩ := ih done
    refine ⟨by simp only [erase, same], fun pos name scope type member => ?_⟩
    simp only [nodes, List.mem_cons, reduceCtorEq, false_or] at member
    exact scopes pos name scope type member
  | letIn pos namePos name value body bound ihValue ihBody =>
    obtain ⟨value', p', t, body', done, type, done', rfl⟩ := infer_letIn_ok ok
    obtain ⟨same, scopes⟩ := ihValue done
    obtain ⟨same', scopes'⟩ := ihBody done'
    refine ⟨by simp only [erase, same, same'], fun pos name scope type member => ?_⟩
    simp only [nodes, List.mem_cons, reduceCtorEq, false_or, List.mem_append] at member
    rcases member with member | member
    · exact scopes pos name scope type member
    · exact scopes' pos name scope type member
  | nil pos type =>
    simp only [infer] at ok
    cases ok
    refine ⟨rfl, fun pos name scope type member => ?_⟩
    cases List.mem_singleton.mp member

end Expr

namespace Supply

variable {p q r : Supply} {env : Bindings} {level : Int} {τ : Term Atom}

/-- Each variable of the type is free in the bindings, or has been drawn since at the level. -/
def Accounts (p : Supply) (env : Bindings) (level : Int) (q : Supply) (τ : Term Atom) : Prop :=
  ∀ ref, .var ref ∈ τ.atoms →
    (p.store.schemes env).Free ref ∨ p.store.size ≤ ref ∧ q.store.state ref = .unbound level

/-- One level down, the variables deeper than the level are those that are not free in the
    bindings. -/
theorem Accounts.closing_eq (accounts : p.Accounts env (level + 1) q τ)
    (inScope : p.store.Scoped env level) (grown : p.store.Extends q.store) :
    τ.subst (q.store.closing level) =
      τ.subst ((p.store.schemes env).closing fun ref => (q.store.cell ref).id) := by
  apply Term.subst_congr
  intro ref member
  by_cases free : (p.store.schemes env).Free ref
  · obtain ⟨-, own, state⟩ := inScope.closed.free_iff.mp free
    have state' := (grown.state (inScope.free_inside free)).trans state
    rw [Store.closing_of_le state' (inScope.level_le free state), Schemes.closing_free free]
  · obtain ⟨-, state⟩ := (accounts ref member).resolve_left free
    rw [Store.closing_of_lt state (Int.lt_succ level), Schemes.closing_bound free]

theorem Accounts.distinct {ref ref' : Nat} (accounts : p.Accounts env level q τ)
    (numbered : p.Numbered q) (member : .var ref ∈ τ.atoms) (member' : .var ref' ∈ τ.atoms)
    (bound : ¬ (p.store.schemes env).Free ref) (bound' : ¬ (p.store.schemes env).Free ref')
    (same : (q.store.cell ref).id = (q.store.cell ref').id) : ref = ref' := by
  obtain ⟨new, state⟩ := (accounts ref member).resolve_left bound
  obtain ⟨new', state'⟩ := (accounts ref' member').resolve_left bound'
  exact numbered.distinct new new' state state' same

theorem Accounts.closes (accounts : p.Accounts env level q τ) (numbered : p.Numbered q) :
    Closes (p.store.schemes env) τ
      (τ.subst ((p.store.schemes env).closing fun ref => (q.store.cell ref).id)) :=
  ⟨fun ref => (q.store.cell ref).id, rfl,
    fun _ _ member member' bound bound' => accounts.distinct numbered member member' bound bound'⟩

theorem Accounts.schemes_generalize {t : Ty} (name : String) (accounts : p.Accounts env (level + 1) q τ)
    (inScope : p.store.Scoped env level) (grown : p.store.Extends q.store) (reads : q.store.Reads t τ) :
    (q.store.generalize level t).2.schemes (env.insert name (q.store.generalize level t).1) =
      (p.store.schemes env).bind name
        (τ.subst ((p.store.schemes env).closing fun ref => (q.store.cell ref).id)) := by
  obtain ⟨grown', readsBound⟩ := Store.generalize_spec level reads.complete
  rw [reads.view_eq] at readsBound
  rw [Store.schemes_insert, readsBound.view_eq, accounts.closing_eq inScope grown,
    inScope.closed.schemes_extend (grown.trans grown')]

theorem Accounts.earlier {env' : Bindings} (accounts : q.Accounts env' level r τ)
    (grown : p.store.Extends q.store)
    (free : ∀ ref, (q.store.schemes env').Free ref →
      (p.store.schemes env).Free ref ∨ p.store.size ≤ ref ∧ r.store.state ref = .unbound level) :
    p.Accounts env level r τ := by
  intro ref member
  rcases accounts ref member with met | ⟨new, state⟩
  · exact free ref met
  · exact .inr ⟨Nat.le_trans grown.size new, state⟩

theorem Accounts.fn {env' : Bindings} {refs : List Nat} (accounts : q.Accounts env' level r τ)
    (grown : p.store.Extends q.store)
    (free : ∀ ref, (q.store.schemes env').Free ref → (p.store.schemes env).Free ref ∨ ref ∈ refs)
    (drawn : ∀ ref ∈ refs, p.store.size ≤ ref ∧ r.store.state ref = .unbound level) :
    p.Accounts env level r (.node .fn (Term.vars refs ++ [τ])) := by
  intro ref member
  rw [Term.atoms_node, List.mem_flatMap] at member
  obtain ⟨σ, inside, met⟩ := member
  rcases List.mem_append.mp inside with inside | inside
  · exact .inr (drawn ref (Term.var_mem_vars.mp ⟨σ, inside, met⟩))
  · rw [List.mem_singleton.mp inside] at met
    refine accounts.earlier grown (fun ref met => ?_) ref met
    rcases free ref met with free | inside
    · exact .inl free
    · exact .inr (drawn ref inside)

theorem instantiate_instance {t u : Ty} (unmarked : level ≠ genericLevel ∧ level ≠ linkLevel)
    (complete : p.store.Complete t) (ok : p.instantiate level t = (.ok u, q)) :
    ∃ τ, q.store.Reads u τ ∧ Instance (p.store.view t) τ ∧ ∀ ref, .var ref ∈ τ.atoms →
      .var ref ∈ (p.store.view t).atoms ∨ p.store.size ≤ ref ∧ q.store.state ref = .unbound level := by
  obtain ⟨u', q', run, -, name, reads, fresh, -⟩ := instantiate_spec unmarked complete
  rw [ok] at run
  cases run
  have atoms : ∀ a ∈ ((p.store.view t).instantiate fun id => .atom (.var (name id))).atoms,
      ∃ ref, a = .var ref ∧ (.var ref ∈ (p.store.view t).atoms ∨
        p.store.size ≤ ref ∧ q.store.state ref = .unbound level) := by
    intro a member
    obtain ⟨b, inside, met⟩ := Term.mem_atoms_bind.mp member
    cases b with
    | missing => exact absurd inside complete.missing_notMem
    | var ref =>
      obtain rfl : a = .var ref := by simpa [Atom.instantiate] using met
      exact ⟨ref, rfl, .inl inside⟩
    | rigid id =>
      obtain rfl : a = .var (name id) := by simpa [Atom.instantiate] using met
      exact ⟨name id, rfl, .inr (fresh id inside)⟩
  refine ⟨_, reads, ⟨fun a member => ?_, _, rfl⟩, fun ref member => ?_⟩
  · obtain ⟨ref, same, -⟩ := atoms a member
    exact ⟨ref, same⟩
  · obtain ⟨_, ⟨⟩, met⟩ := atoms _ member
    exact met

end Supply

def Supply.Derives (p : Supply) (env : Bindings) (level : Int) (typed : Expr) (q : Supply) : Prop :=
  ∃ τ, Typing q.store.Reads (p.store.schemes env) typed τ ∧ p.Accounts env level q τ

namespace Task.Ready

variable {pos namePos : Pos} {name : String} {scope : Scope} {type bound t : Ty} {params : List Param}
  {e first first' body body' value value' typed : Expr} {level : Int} {env : Bindings} {p p' q : Supply}

theorem derives_seq (ready : Ready ⟨.seq pos first body, level, env, p⟩)
    (done : first.infer level env p = (.ok first', p'))
    (done' : body.infer level env p' = (.ok body', q)) (left : p.Derives env level first' p')
    (right : p'.Derives env level body' q) : p.Derives env level (.seq pos first' body') q := by
  have later := ready.seqBody done
  have grown := (ready.seqFirst.steps done).grows
  have rest : p'.store.Extends q.store := (later.steps done').grows
  obtain ⟨τ₁, typing₁, -⟩ := left
  obtain ⟨τ, typing, accounts⟩ := right
  rw [ready.scope.closed.schemes_extend grown] at typing
  refine ⟨τ, .seq (typing₁.imp fun _ _ reads => reads.extend rest) typing, ?_⟩
  refine accounts.earlier grown fun ref free => .inl ?_
  rwa [ready.scope.closed.schemes_extend grown] at free

theorem derives_var {scheme type' : Ty} (ready : Ready ⟨.var pos name scope type, level, env, p⟩)
    (found : env.get? name = some scheme) (run : p.instantiate level scheme = (.ok type', q)) :
    p.Derives env level (.var pos name .bound type') q := by
  have bound : p.store.schemes env name = some (p.store.view scheme) := by
    simp only [Store.schemes, found, Option.map_some]
  obtain ⟨τ, reads, inst, vars⟩ := Supply.instantiate_instance ready.range.unmarked
    (ready.scope.closed name scheme found) run
  refine ⟨τ, .var bound inst reads, fun ref member => ?_⟩
  rcases vars ref member with met | drawn
  · exact .inl ⟨name, _, bound, met⟩
  · exact .inr drawn

theorem derives_fn {result : Ty} (ready : Ready ⟨.fn pos params body type, level, env, p⟩)
    (done : body.infer level (bindParams level params env p).2.1 (bindParams level params env p).2.2 =
      (.ok body', q))
    (shown : body'.typeIn q.store = .ok result)
    (inner : (bindParams level params env p).2.2.Derives (bindParams level params env p).2.1 level body' q) :
    p.Derives env level (.fn pos params body' (.fn (bindParams level params env p).1 result)) q := by
  obtain ⟨-, -, -, schemes⟩ := bindParams_spec ready.range.unmarked params ready.scope
  have grown := (Supply.bindParams_steps ready.range.unmarked params env p).grows
  have rest := (ready.fnBody.steps done).grows
  obtain ⟨τ, typing, accounts⟩ := inner
  have reads := typing.reads shown
  have drawn := bindParams_drawn ready.range.unmarked ready.scope rest
  have readsFn := bindParams_reads ready.range.unmarked ready.scope rest reads
  refine ⟨_, .fn ?_ ?_ (schemes ▸ typing) readsFn,
    accounts.fn grown (fun ref free => ?_) fun ref member => ?_⟩
  · simp [Term.vars]
  · intro σ member
    obtain ⟨ref, -, rfl⟩ := Term.mem_vars.mp member
    exact .var ref
  · rw [schemes] at free
    exact (Schemes.free_bindParams free).imp_right Term.var_mem_vars.mp
  · exact ⟨(List.mem_range'_1.mp member).1, drawn ref member⟩

theorem derives_letIn (ready : Ready ⟨.letIn pos (.var namePos name) value body bound, level, env, p⟩)
    (done : value.infer (level + 1) env p = (.ok value', p')) (shown : value'.typeIn p'.store = .ok t)
    (done' : body.infer level (env.insert name (p'.store.generalize level t).1)
      { p' with store := (p'.store.generalize level t).2 } = (.ok body', q))
    (left : p.Derives env (level + 1) value' p')
    (right : Supply.Derives { p' with store := (p'.store.generalize level t).2 }
      (env.insert name (p'.store.generalize level t).1) level body' q) :
    p.Derives env level
      (.letIn pos (.var namePos name) value' body' (p'.store.generalize level t).1) q := by
  obtain ⟨-, readyValue⟩ := ready.letValue
  have grown := (readyValue.steps done).grows
  obtain ⟨τ₁, typing₁, accounts₁⟩ := left
  obtain ⟨τ, typing, accounts⟩ := right
  have reads := typing₁.reads shown
  obtain ⟨grown', readsBound⟩ := Store.generalize_spec level reads.complete
  rw [reads.view_eq, accounts₁.closing_eq ready.scope grown] at readsBound
  have rest := ((ready.letBody done shown reads.complete).steps done').grows
  have closes := accounts₁.closes (readyValue.numbered done)
  have schemes := accounts₁.schemes_generalize name ready.scope grown reads
  refine ⟨τ, .letIn (typing₁.imp fun _ _ h => h.extend (grown'.trans rest)) closes
    (readsBound.extend rest) (schemes ▸ typing), ?_⟩
  refine accounts.earlier (grown.trans grown') fun ref free => .inl ?_
  rw [schemes] at free
  exact (Schemes.free_bind free).elim id fun met => (Schemes.free_of_mem_closing met).1

theorem derives_nil (ready : Ready ⟨.nil pos type, level, env, p⟩)
    (ok : (Expr.nil pos type).infer level env p = (.ok typed, q)) : p.Derives env level typed q := by
  simp only [Expr.infer, Supply.freshUnbound_eq p ready.range.unmarked] at ok
  cases ok
  have free := Store.state_alloc_self p.store p.nextId (.unbound level)
  refine ⟨_, .nil (.var p.store.size) (.node rfl (.cons (.unbound free) .nil)), fun ref member => ?_⟩
  obtain rfl : ref = p.store.size := by simpa [Term.list] using member
  exact .inr ⟨Nat.le_refl _, free⟩

theorem derives (ready : Ready ⟨e, level, env, p⟩) (ok : e.infer level env p = (.ok typed, q)) :
    p.Derives env level typed q := by
  induction e using Expr.inferInduction generalizing level env p q typed with
  | literal e name literal =>
    rw [Expr.infer_literal literal] at ok
    cases ok
    exact ⟨.base name, .literal literal, by simp [Supply.Accounts, Term.base]⟩
  | refused e refused =>
    obtain ⟨error, invalid, run⟩ := refused
    rw [run] at ok
    cases ok
  | seq pos first body ihFirst ihBody =>
    obtain ⟨first', p', body', done, done', rfl⟩ := Expr.infer_seq_ok ok
    exact ready.derives_seq done done' (ihFirst ready.seqFirst done) (ihBody (ready.seqBody done) done')
  | var pos name scope type =>
    obtain ⟨scheme, type', found, run, rfl⟩ := Expr.infer_var_ok ok
    exact ready.derives_var found run
  | fn pos params body type ih =>
    obtain ⟨body', result, done, shown, rfl⟩ := Expr.infer_fn_ok ok
    exact ready.derives_fn done shown (ih ready.fnBody done)
  | letIn pos namePos name value body bound ihValue ihBody =>
    obtain ⟨value', p', t, body', done, shown, done', rfl⟩ := Expr.infer_letIn_ok ok
    obtain ⟨wrapped, readyValue⟩ := ready.letValue
    rw [wrapped] at done
    obtain ⟨τ, typing, -⟩ := ihValue readyValue done
    have complete := (typing.reads shown).complete
    exact ready.derives_letIn done shown done' (ihValue readyValue done)
      (ihBody (ready.letBody done shown complete) done')
  | nil pos type => exact ready.derives_nil ok

end Task.Ready

def Task.top (task : Task) : Inferred := task.expr.inferTop task.level task.env task.supply

theorem Task.top_of_run {task : Task} {typed : Expr} {q : Supply} (done : task.run = (.ok typed, q)) :
    task.top.result = .ok typed ∧ task.top.supply = q := by
  obtain ⟨expr, level, env, p⟩ := task
  simp only [run] at done
  have present : expr.isMissing = false := by
    cases expr with
    | missing => cases done
    | _ => rfl
  simp [top, Expr.inferTop, present, done]

theorem Task.run_of_top {task : Task} {typed : Expr} (ok : task.top.result = .ok typed) :
    task.run = (.ok typed, task.top.supply) := by
  simp only [top, Expr.inferTop] at ok ⊢
  cases missing : task.expr.isMissing with
  | true => simp [missing] at ok
  | false =>
    change task.expr.infer task.level task.env task.supply = _
    cases done : task.expr.infer task.level task.env task.supply with
    | mk r q =>
      simp only [missing, Bool.false_eq_true, if_false, done] at ok ⊢
      cases r with
      | ok typed' =>
        cases ok
        rfl
      | error stop => cases stop <;> cases ok

/-- The tree that inference returns is the given one with types and scopes written into it. Each
    node has a type, each variable has been looked up, and the types are a derivation by the typing
    rules from what the names are bound to. -/
theorem inferTop_sound {task : Task} {typed : Expr} (ready : task.Ready)
    (ok : task.top.result = .ok typed) :
    typed.erase = task.expr.erase ∧
      (∀ node ∈ typed.nodes, ∃ t, node.typeIn task.top.supply.store = .ok t ∧
        task.top.supply.store.Complete t) ∧
      (∀ pos name scope type, .var pos name scope type ∈ typed.nodes → scope = .bound) ∧
      ∃ t, typed.typeIn task.top.supply.store = .ok t ∧
        Typing task.top.supply.store.Reads (task.supply.store.schemes task.env) typed
          (task.top.supply.store.view t) := by
  have done := Task.run_of_top ok
  obtain ⟨same, scopes⟩ := Expr.infer_erase done
  obtain ⟨τ, typing, -⟩ := ready.derives done
  obtain ⟨t, type, reads⟩ := typing.typeIn
  refine ⟨same, typing.typeIn_nodes, scopes, t, type, ?_⟩
  rw [reads.view_eq]
  exact typing

theorem inferTop_sound_sample :
    sampleTask.Ready ∧ ∃ typed, sampleTask.top.result = .ok typed ∧
      typed.erase = sampleTask.expr.erase ∧
      (∀ node ∈ typed.nodes, ∃ t, node.typeIn sampleTask.top.supply.store = .ok t ∧
        sampleTask.top.supply.store.Complete t) ∧
      ∃ t, Typing sampleTask.top.supply.store.Reads (sampleTask.supply.store.schemes sampleTask.env)
        typed (sampleTask.top.supply.store.view t) := by
  have accepted : sampleTask.top.result.isOk = true := by decide +kernel
  refine ⟨sampleTask_ready, ?_⟩
  cases result : sampleTask.top.result with
  | error stop => simp [result, Except.isOk, Except.toBool] at accepted
  | ok typed =>
    obtain ⟨same, nodes, -, t, -, typing⟩ := inferTop_sound sampleTask_ready result
    exact ⟨typed, rfl, same, nodes, t, typing⟩

end LetPoly
