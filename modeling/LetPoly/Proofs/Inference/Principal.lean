import LetPoly.Proofs.Inference.Sound

namespace LetPoly

namespace Substitution

variable {θ new : Substitution} {start ref : Nat}

def past (θ : Substitution) (start : Nat) (new : Substitution) : Substitution := fun ref =>
  if ref < start then θ ref else new ref

def listed (start : Nat) (σs : List (Term Atom)) : Substitution := fun ref =>
  σs.getD (ref - start) (.atom (.var ref))

theorem past_of_lt (lt : ref < start) : θ.past start new ref = θ ref := if_pos lt

theorem past_of_le (le : start ≤ ref) : θ.past start new ref = new ref :=
  if_neg (Nat.not_lt.mpr le)

theorem map_past_listed (θ : Substitution) (start : Nat) (σs : List (Term Atom)) :
    (List.range' start σs.length).map (θ.past start (listed start σs)) = σs := by
  apply List.ext_getElem
  · simp
  · intro i _ inside
    simp [past, listed, inside]

end Substitution

/-- Under the substitution, the first type has every instance of the second and leaves no other
    variables open. -/
structure MoreGeneral (θ : Substitution) (σ' σ : Term Atom) : Prop where
  inst : ∀ {τ}, Instance σ τ → Instance (σ'.subst θ) τ
  free : ∀ {ref}, .var ref ∈ (σ'.subst θ).atoms → .var ref ∈ σ.atoms

theorem MoreGeneral.of_eq {θ : Substitution} {σ' σ : Term Atom} (same : σ'.subst θ = σ) :
    MoreGeneral θ σ' σ :=
  ⟨fun inst => same ▸ inst, fun member => same ▸ member⟩

/-- The same names are bound, those on the left to more general types. No generic variable is put in
    the place of a free one. -/
structure Covers (θ : Substitution) (C Γ : Schemes) : Prop where
  bound : ∀ name, Option.Rel (MoreGeneral θ) (C name) (Γ name)
  mono : ∀ {ref}, C.Free ref → (θ ref).Mono

namespace Covers

variable {θ θ' : Substitution} {C Γ : Schemes} {name : String} {σ σ' : Term Atom} {ref ref' : Nat}

theorem refl (C : Schemes) : Covers (fun ref => .atom (.var ref)) C C where
  bound name := by
    cases C name with
    | none => exact .none
    | some σ => exact .some (.of_eq (Term.subst_var σ))
  mono _ := .var _

theorem lookup (covers : Covers θ C Γ) (found : Γ name = some σ) :
    ∃ σ', C name = some σ' ∧ MoreGeneral θ σ' σ := by
  have bound := covers.bound name
  rw [found] at bound
  generalize C name = general at bound ⊢
  cases bound with
  | some more => exact ⟨_, rfl, more⟩

theorem free (covers : Covers θ C Γ) (free : C.Free ref) (member : .var ref' ∈ (θ ref).atoms) :
    Γ.Free ref' := by
  obtain ⟨name, σ', found, met⟩ := free
  have bound := covers.bound name
  rw [found] at bound
  generalize declared : Γ name = scheme at bound
  cases bound with
  | some more => exact ⟨name, _, declared, more.free (Term.var_mem_subst.mpr ⟨ref, met, member⟩)⟩

theorem bind (covers : Covers θ C Γ) (name : String) (more : MoreGeneral θ σ' σ)
    (mono : ∀ ref, .var ref ∈ σ'.atoms → (θ ref).Mono) : Covers θ (C.bind name σ') (Γ.bind name σ) where
  bound other := by
    simp only [Schemes.bind]
    split
    · exact .some more
    · exact covers.bound other
  mono free := (Schemes.free_bind free).elim covers.mono (mono _)

theorem congr (covers : Covers θ C Γ) (same : ∀ ref, C.Free ref → θ' ref = θ ref) :
    Covers θ' C Γ where
  bound name := by
    have bound := covers.bound name
    generalize found : C name = general at bound ⊢
    generalize Γ name = declared at bound ⊢
    cases bound with
    | none => exact .none
    | @some σ' σ more =>
      have subst : σ'.subst θ' = σ'.subst θ :=
        Term.subst_congr fun ref member => same ref ⟨name, σ', found, member⟩
      exact .some ⟨fun inst => subst ▸ more.inst inst, fun member => more.free (subst ▸ member)⟩
  mono free := same _ free ▸ covers.mono free

theorem bindParams (covers : Covers θ C Γ) (params : List Param) (refs : List Nat)
    (mono : ∀ ref ∈ refs, (θ ref).Mono) :
    Covers θ (C.bindParams params (Term.vars refs)) (Γ.bindParams params (refs.map θ)) := by
  induction params generalizing C Γ refs with
  | nil => exact covers
  | cons param params ih =>
    cases refs with
    | nil => exact covers
    | cons ref refs =>
      obtain ⟨first, rest⟩ := List.forall_mem_cons.mp mono
      refine ih (covers.bind param.name (.of_eq (Term.subst_atom _)) fun other member => ?_) refs rest
      obtain rfl : other = ref := by simpa using member
      exact first

end Covers

theorem Covers.closing {θ θ' : Substitution} {C Γ : Schemes} {τ τ' : Term Atom} {number id : Nat → Int}
    (covers : Covers θ C Γ) (agree : ∀ ref, C.Free ref → θ' ref = θ ref) (mono' : τ'.Mono)
    (mono : τ.Mono) (same : τ'.subst θ' = τ)
    (distinct : Set.InjOn id {ref | .var ref ∈ τ'.atoms ∧ ¬ C.Free ref}) :
    MoreGeneral θ (τ'.subst (C.closing id)) (τ.subst (Γ.closing number)) where
  inst := by
    rintro τ₀ ⟨monotype, φ, rfl⟩
    obtain ⟨origin, inverse⟩ :
        ∃ origin, Set.LeftInvOn origin id {ref | .var ref ∈ τ'.atoms ∧ ¬ C.Free ref} :=
      ⟨_, distinct.leftInvOn_invFunOn⟩
    -- a generic variable is taken to what stands in the place of the variable that it was made from
    refine ⟨monotype, fun n =>
      (θ' (origin n)).subst fun ref => (Γ.closing number ref).instantiate φ, ?_⟩
    rw [mono.instantiate_subst, ← same, Term.subst_subst, Term.subst_subst, mono'.instantiate_subst]
    apply Term.subst_congr
    intro ref member
    by_cases free : C.Free ref
    · rw [Schemes.closing_free free, agree ref free, Term.subst_atom]
      refine (Term.subst_eq_self fun ref' member' => ?_).trans (covers.mono free).instantiate_eq.symm
      rw [Schemes.closing_free (covers.free free member')]
      rfl
    · rw [Schemes.closing_bound free]
      simp only [Term.subst_atom, Atom.subst, Term.instantiate_atom, Atom.instantiate]
      rw [inverse ⟨member, free⟩]
  free := by
    intro ref member
    obtain ⟨other, kept, inside⟩ := Term.var_mem_subst.mp member
    obtain ⟨free, met⟩ := Schemes.free_of_mem_closing kept
    refine Term.var_mem_subst.mpr ⟨ref, ?_, ?_⟩
    · rw [← same]
      exact Term.var_mem_subst.mpr ⟨other, met, agree other free ▸ inside⟩
    · rw [Schemes.closing_free (covers.free free inside)]
      simp

namespace Task

variable {task : Task} {pos namePos : Pos} {name : String} {scope : Scope} {first body value typed : Expr}
  {params : List Param} {type bound t : Ty} {level : Int} {env : Bindings} {p q : Supply}
  {θ : Substitution} {Γ : Schemes} {τ σ : Term Atom}

/-- Inference succeeds with a type that some substitution takes to the given one. On the variables
    that were there before, it is the given substitution. -/
def Infers (task : Task) (θ : Substitution) (τ : Term Atom) : Prop :=
  ∃ typed q t θ', task.run = (.ok typed, q) ∧ typed.typeIn q.store = .ok t ∧
    (∀ ref < task.supply.store.size, θ' ref = θ ref) ∧ (q.store.view t).subst θ' = τ

theorem infers_literal {e : Expr} (literal : e.literal? = some name) :
    Infers ⟨e, level, env, p⟩ θ (.base name) := by
  have reads : p.store.Reads (.const { name }) (.base name) := .node rfl .nil
  have shown : e.typeIn p.store = .ok (.const { name }) := by
    cases e <;> cases literal <;> rfl
  refine ⟨e, p, _, θ, Expr.infer_literal literal level env p, shown, fun _ _ => rfl, ?_⟩
  rw [reads.view_eq]
  rfl

theorem Ready.infers_seq (ready : Ready ⟨.seq pos first body, level, env, p⟩)
    (done : first.infer level env p = (.ok typed, q)) (rest : Infers ⟨body, level, env, q⟩ θ τ) :
    Infers ⟨.seq pos first body, level, env, p⟩ θ τ := by
  obtain ⟨body', r, t, θ', done', shown, agree, same⟩ := rest
  have grown := (ready.seqFirst.steps done).grows
  simp only [run] at done'
  refine ⟨.seq pos typed body', r, t, θ', ?_, shown, fun ref lt => ?_, same⟩
  · simp only [run, Expr.infer, done, done']
  · exact agree ref (Nat.lt_of_lt_of_le lt grown.size)

theorem Ready.infers_var (ready : Ready ⟨.var pos name scope type, level, env, p⟩)
    (covers : Covers θ (p.store.schemes env) Γ) (found : Γ name = some σ) (inst : Instance σ τ) :
    Infers ⟨.var pos name scope type, level, env, p⟩ θ τ := by
  obtain ⟨σ', shown, more⟩ := covers.lookup found
  obtain ⟨scheme, bound, rfl⟩ := Option.map_eq_some_iff.mp shown
  obtain ⟨-, φ, rfl⟩ := more.inst inst
  obtain ⟨u, q, run, -, fresh, reads, above, distinct⟩ :=
    Supply.instantiate_spec ready.range.unmarked (ready.scope.closed name scheme bound)
  have injective : Set.InjOn fresh {id | .rigid id ∈ (p.store.view scheme).atoms} :=
    fun id member id' member' => distinct id id' member member'
  obtain ⟨origin, inverse⟩ :
      ∃ origin, Set.LeftInvOn origin fresh {id | .rigid id ∈ (p.store.view scheme).atoms} :=
    ⟨_, injective.leftInvOn_invFunOn⟩
  -- each variable that was drawn stands for what its generic variable is replaced by
  refine ⟨.var pos name .bound u, q, q.store.head u,
    θ.past p.store.size fun ref => φ (origin ref), ?_, rfl,
    fun ref lt => Substitution.past_of_lt lt, ?_⟩
  · simp only [Task.run, Expr.infer, bound, run]
  · rw [reads.head.view_eq, Term.subst, Term.instantiate, Term.instantiate, Term.subst, Term.bind_bind,
      Term.bind_bind]
    apply Term.bind_congr
    intro a member
    cases a with
    | missing => rfl
    | var ref =>
      have free : (p.store.schemes env).Free ref := ⟨name, _, shown, member⟩
      have inside := ready.scope.free_inside free
      simp only [Atom.instantiate, Atom.subst, Term.bind_atom]
      exact (Substitution.past_of_lt inside).trans (covers.mono free).instantiate_eq.symm
    | rigid id =>
      simp only [Atom.instantiate, Atom.subst, Term.bind_atom]
      rw [Substitution.past_of_le (above id member).1]
      rw [inverse member]

theorem Ready.infers_fn {σs : List (Term Atom)} (ready : Ready ⟨.fn pos params body type, level, env, p⟩)
    (length : σs.length = params.length)
    (rest : Infers ⟨body, level, (bindParams level params env p).2.1, (bindParams level params env p).2.2⟩
      (θ.past p.store.size (.listed p.store.size σs)) τ) :
    Infers ⟨.fn pos params body type, level, env, p⟩ θ (.node .fn (σs ++ [τ])) := by
  obtain ⟨body', q, t, θ', done, shown, agree, rfl⟩ := rest
  have steps := Supply.bindParams_steps ready.range.unmarked params env p
  obtain ⟨_, typing, -⟩ := ready.fnBody.derives done
  have reads := typing.reads shown
  have after := (ready.fnBody.steps done).grows
  have readsFn := bindParams_reads ready.range.unmarked ready.scope after reads
  simp only [run] at done
  refine ⟨.fn pos params body' (.fn (bindParams level params env p).1 t), q, _, θ', ?_, rfl,
    fun ref lt => ?_, ?_⟩
  · simp only [run, Expr.infer, done, shown]
  · exact (agree ref (Nat.lt_of_lt_of_le lt steps.grows.size)).trans (Substitution.past_of_lt lt)
  · have drawn : (List.range' p.store.size params.length).map θ' = σs := by
      rw [← length]
      refine (List.map_congr_left fun ref member => agree ref ?_).trans
        (Substitution.map_past_listed θ p.store.size σs)
      rw [length] at member
      exact Store.lt_size_of_unbound (bindParams_drawn ready.range.unmarked ready.scope (.refl _) ref member)
    rw [readsFn.view_eq, reads.view_eq, Term.subst_node, List.map_append, Term.map_subst_vars, drawn]
    rfl

theorem Ready.infers_letIn
    (ready : Ready ⟨.letIn pos (.var namePos name) value body bound, level, env, p⟩)
    (done : value.infer (level + 1) env p = (.ok typed, q)) (shown : typed.typeIn q.store = .ok t)
    (complete : q.store.Complete t)
    (rest : Infers ⟨body, level, env.insert name (q.store.generalize level t).1,
      { q with store := (q.store.generalize level t).2 }⟩ θ τ) :
    Infers ⟨.letIn pos (.var namePos name) value body bound, level, env, p⟩ θ τ := by
  obtain ⟨body', r, u, θ', done', type, agree, same⟩ := rest
  obtain ⟨wrapped, readyValue⟩ := ready.letValue
  have grown := (readyValue.steps done).grows
  obtain ⟨grown', -⟩ := Store.generalize_spec level complete
  simp only [run] at done'
  refine ⟨.letIn pos (.var namePos name) typed body' (q.store.generalize level t).1, r, u, θ', ?_, type,
    fun ref lt => ?_, same⟩
  · simp only [run, Expr.infer, wrapped, done, shown, done']
  · exact agree ref (Nat.lt_of_lt_of_le lt (grown.trans grown').size)

theorem Ready.infers_nil (ready : Ready ⟨.nil pos type, level, env, p⟩) :
    Infers ⟨.nil pos type, level, env, p⟩ θ (.list τ) := by
  have done : (Expr.nil pos type).infer level env p =
      (.ok (.nil pos (.app { name := "List" } [.cell p.store.size])),
        ⟨(p.store.alloc p.nextId (.unbound level)).2, wrap64 (p.nextId + 1)⟩) := by
    simp only [Expr.infer, Supply.freshUnbound_eq p ready.range.unmarked]
    rfl
  have free := Store.state_alloc_self p.store p.nextId (.unbound level)
  have reads : (p.store.alloc p.nextId (.unbound level)).2.Reads
      (.app { name := "List" } [.cell p.store.size]) (.list (.atom (.var p.store.size))) :=
    .node rfl (.cons (.unbound free) .nil)
  refine ⟨_, _, _, θ.past p.store.size fun _ => τ, done, rfl,
    fun ref lt => Substitution.past_of_lt lt, ?_⟩
  rw [reads.head.view_eq]
  simp [Term.list, Atom.subst, Substitution.past_of_le]

theorem Ready.covers_params {σs : List (Term Atom)}
    (ready : Ready ⟨.fn pos params body type, level, env, p⟩)
    (covers : Covers θ (p.store.schemes env) Γ) (length : σs.length = params.length)
    (mono : ∀ σ ∈ σs, σ.Mono) :
    Covers (θ.past p.store.size (.listed p.store.size σs))
      ((bindParams level params env p).2.2.store.schemes (bindParams level params env p).2.1)
      (Γ.bindParams params σs) := by
  have listed := Substitution.map_past_listed θ p.store.size σs
  have kept : Covers (θ.past p.store.size (.listed p.store.size σs)) (p.store.schemes env) Γ :=
    covers.congr fun ref free => Substitution.past_of_lt (ready.scope.free_inside free)
  have drawn : ∀ ref ∈ List.range' p.store.size σs.length,
      (θ.past p.store.size (.listed p.store.size σs) ref).Mono := by
    intro ref member
    have image := List.mem_map_of_mem (f := θ.past p.store.size (.listed p.store.size σs)) member
    rw [listed] at image
    exact mono _ image
  have more := kept.bindParams params (List.range' p.store.size σs.length) drawn
  rw [(bindParams_spec ready.range.unmarked params ready.scope).2.2.2, ← length]
  rwa [listed] at more

theorem Ready.infers {e : Expr} (ready : Ready ⟨e, level, env, p⟩)
    (covers : Covers θ (p.store.schemes env) Γ) (typing : HasType Γ e τ) :
    Infers ⟨e, level, env, p⟩ θ τ := by
  induction typing generalizing level env p θ with
  | literal literal => exact infers_literal literal
  | seq _ _ ihFirst ihBody =>
    obtain ⟨first', q, -, -, done, -⟩ := ihFirst ready.seqFirst covers
    have grown := (ready.seqFirst.steps done).grows
    refine ready.infers_seq done (ihBody (ready.seqBody done) ?_)
    rwa [ready.scope.closed.schemes_extend grown]
  | var found inst => exact ready.infers_var covers found inst
  | fn length mono _ _ ih =>
    exact ready.infers_fn length (ih ready.fnBody (ready.covers_params covers length mono))
  | @letIn Γ pos namePos name value body bound τ₁ σ τ typedValue closes _ _ ihValue ihBody =>
    obtain ⟨number, rfl, -⟩ := closes
    obtain ⟨-, readyValue⟩ := ready.letValue
    obtain ⟨typed, q, t, θ', done, shown, agree, same⟩ := ihValue readyValue covers
    have grown := (readyValue.steps done).grows
    obtain ⟨τ', typing', accounts⟩ := readyValue.derives done
    have reads := typing'.reads shown
    rw [reads.view_eq] at same
    have inside : ∀ ref, (p.store.schemes env).Free ref → θ' ref = θ ref :=
      fun ref free => agree ref (ready.scope.free_inside free)
    have distinct : Set.InjOn (fun ref => (q.store.cell ref).id)
        {ref | .var ref ∈ τ'.atoms ∧ ¬ (p.store.schemes env).Free ref} :=
      fun ref here ref' here' => accounts.distinct (readyValue.numbered done) here.1 here'.1 here.2 here'.2
    refine ready.infers_letIn done shown reads.complete
      (ihBody (ready.letBody done shown reads.complete) ?_)
    rw [accounts.schemes_generalize name ready.scope grown reads]
    refine covers.bind name (covers.closing inside typing'.mono typedValue.mono same distinct) ?_
    exact fun ref member => covers.mono (Schemes.free_of_mem_closing member).1
  | nil => exact ready.infers_nil

end Task

def sampleType : Term Atom :=
  .node .fn [.base "Int", .atom (.var 0), .node .fn [.list (.atom (.var 0)), .atom (.var 0)]]

theorem sampleInner_hasType {Γ : Schemes} (x : Γ "x" = some (.atom (.var 2)))
    (z : Γ "z" = some (.atom (.var 0))) (closed : ¬ Γ.Free 3) :
    HasType Γ sampleInner (.node .fn [.atom (.var 3), .atom (.var 2)]) := by
  have free : Γ.Free 2 := ⟨"x", _, x, by simp⟩
  have typed : HasType Γ sampleValue (.node .fn (Term.vars [3] ++ [.atom (.var 2)])) := by
    refine .fn rfl ?_ (.seq (.var z (.of_mono (.var 0)) trivial) (.var x (.of_mono (.var 2)) trivial)) trivial
    simp [Term.vars, Term.Mono.var]
  refine .letIn typed (.intro Γ _) trivial (.var rfl ⟨typed.mono, fun id => .atom (.var id.toNat), ?_⟩ trivial)
  simp [Term.vars, Atom.subst, Schemes.closing_free free, Schemes.closing_bound closed, Atom.instantiate]

theorem sampleTask_hasType :
    HasType (sampleTask.supply.store.schemes sampleTask.env) sampleTask.expr sampleType := by
  have z : sampleTask.supply.store.schemes sampleTask.env "z" = some (.atom (.var 0)) :=
    congrArg some (Store.view_unbound rfl)
  have closed : ∀ ref, 0 < ref → ¬ (sampleTask.supply.store.schemes sampleTask.env).Free ref :=
    fun ref lt free => absurd (sampleTask_ready.scope.free_inside free) (Nat.not_lt.mpr lt)
  have typed : HasType (sampleTask.supply.store.schemes sampleTask.env)
      (.fn {} sampleParams sampleInner .missing)
      (.node .fn (Term.vars [1, 2] ++ [.node .fn [.atom (.var 3), .atom (.var 2)]])) := by
    refine .fn rfl ?_ (sampleInner_hasType rfl z fun free => ?_) trivial
    · simp [Term.vars, Term.Mono.var]
    · rcases Schemes.free_bindParams free with free | ⟨σ, member, met⟩
      · exact closed 3 (by decide) free
      · exact absurd (Term.var_mem_vars.mp ⟨σ, member, met⟩) (by decide)
  refine .letIn typed (.intro _ _) trivial (.seq (.nil (.var 0) trivial)
    (.var rfl ⟨?_, fun id => if id = 1 then .base "Int" else if id = 2 then .atom (.var 0)
      else .list (.atom (.var 0)), ?_⟩ trivial))
  · intro a member
    exact ⟨0, by simpa [sampleType, Term.base, Term.list] using member⟩
  · simp [sampleType, Term.vars, Atom.subst, Schemes.closing_bound, closed, Atom.instantiate]

/-- If the rules give an expression a type, inference succeeds, and that type is the inferred one
    with types in the place of variables that no binding reaches. -/
theorem inferTop_principal {task : Task} {τ : Term Atom} (ready : task.Ready)
    (typing : HasType (task.supply.store.schemes task.env) task.expr τ) :
    ∃ typed t θ, task.top.result = .ok typed ∧ typed.typeIn task.top.supply.store = .ok t ∧
      τ = (task.top.supply.store.view t).subst θ ∧
      ∀ name u ref, task.env.get? name = some u → task.supply.store.Reaches u ref →
        θ ref = .atom (.var ref) := by
  obtain ⟨typed, q, t, θ, done, shown, fixed, same⟩ := ready.infers (.refl _) typing
  obtain ⟨ok, rfl⟩ := Task.top_of_run done
  refine ⟨typed, t, θ, ok, shown, same.symm, fun name u ref bound reach => fixed ref ?_⟩
  exact (ready.scope.closed name u bound).reaches_inside reach

theorem inferTop_principal_sample :
    sampleTask.Ready ∧
      HasType (sampleTask.supply.store.schemes sampleTask.env) sampleTask.expr sampleType ∧
      ∃ typed t θ, sampleTask.top.result = .ok typed ∧
        typed.typeIn sampleTask.top.supply.store = .ok t ∧
        sampleType = (sampleTask.top.supply.store.view t).subst θ ∧ θ 0 = .atom (.var 0) := by
  obtain ⟨typed, t, θ, ok, shown, same, fixed⟩ := inferTop_principal sampleTask_ready sampleTask_hasType
  refine ⟨sampleTask_ready, sampleTask_hasType, typed, t, θ, ok, shown, same, ?_⟩
  exact fixed "z" (.cell 0) 0 rfl (.here (by simp [Ty.leaves]))

end LetPoly
