import LetPoly.Proofs.Inference.Sound

namespace LetPoly

def Stop.fault? : Stop → Option Fault
  | .fault f => some f
  | .failed _ _ => none

def Bindings.Agree (names : List String) (env env' : Bindings) : Prop :=
  ∀ name ∈ names, env.get? name = env'.get? name

namespace Bindings.Agree

variable {names names' : List String} {env env' : Bindings}

theorem mono (agree : Agree names env env') (sub : names' ⊆ names) : Agree names' env env' :=
  fun name member => agree name (sub member)

theorem insert {name : String} (agree : Agree (names.filter (· ≠ name)) env env') (t : Ty) :
    Agree names (env.insert name t) (env'.insert name t) := by
  intro other member
  rw [Index.get?_insert, Index.get?_insert]
  split
  · rfl
  · rename_i differs
    exact agree other (List.mem_filter.mpr ⟨member, by simpa using differs⟩)

theorem insert_left {name : String} (unused : name ∉ names) (t : Ty) :
    Agree names (env.insert name t) env := by
  intro other member
  rw [Index.get?_insert, if_neg]
  rintro rfl
  exact unused member

end Bindings.Agree

theorem bindParams_agree (level : Int) (params : List Param) {names : List String}
    {env env' : Bindings} (p : Supply)
    (agree : Bindings.Agree (names.filter (· ∉ params.map Param.name)) env env') :
    (bindParams level params env p).1 = (bindParams level params env' p).1 ∧
      Bindings.Agree names (bindParams level params env p).2.1 (bindParams level params env' p).2.1 ∧
      (bindParams level params env p).2.2 = (bindParams level params env' p).2.2 := by
  induction params generalizing env env' p with
  | nil => exact ⟨rfl, agree.mono (by simp), rfl⟩
  | cons param params ih =>
    have inner : Bindings.Agree (names.filter (· ∉ params.map Param.name))
        (env.insert param.name (p.freshUnbound level).1)
        (env'.insert param.name (p.freshUnbound level).1) := by
      apply Bindings.Agree.insert
      refine agree.mono fun name member => ?_
      simp only [List.mem_filter, List.map_cons, List.mem_cons, decide_eq_true_eq, not_or] at member ⊢
      exact ⟨member.1.1, member.2, member.1.2⟩
    obtain ⟨types, agree', supply⟩ := ih (p.freshUnbound level).2 inner
    exact ⟨congrArg ((p.freshUnbound level).1 :: ·) types, agree', supply⟩

theorem bindParams_names (level : Int) {params params' : List Param} (env : Bindings) (p : Supply)
    (same : params.map Param.name = params'.map Param.name) :
    bindParams level params env p = bindParams level params' env p := by
  induction params generalizing params' env p with
  | nil => rw [List.map_eq_nil_iff.mp same.symm]
  | cons param params ih =>
    obtain ⟨param', rest, rfl, name, names⟩ := List.map_eq_cons_iff.mp same.symm
    simp only [bindParams, name, ih _ _ names.symm]

namespace Expr

def freeNames : Expr → List String
  | .var _ name _ _ => [name]
  | .seq _ first body => first.freeNames ++ body.freeNames
  | .fn _ params body _ => body.freeNames.filter (· ∉ params.map Param.name)
  | .letIn _ (.var _ name) value body _ => value.freeNames ++ body.freeNames.filter (· ≠ name)
  | _ => []

def lineNames : Expr → List String
  | .seq _ first body => first.lineNames ++ body.lineNames
  | .letIn _ (.var _ name) _ body _ => name :: body.lineNames
  | _ => []

/-- What stands behind an expression in a sequence takes no name that is bound within it. -/
def Separate : Expr → Prop
  | .seq _ first body =>
    first.Separate ∧ body.Separate ∧ ∀ name ∈ first.lineNames, name ∉ body.freeNames
  | .fn _ _ body _ => body.Separate
  | .letIn _ (.var _ _) value body _ => value.Separate ∧ body.Separate
  | _ => True

def settle (e : Expr) (level : Int) (env : Bindings) (p : Supply) :
    Except (Option Fault) (Ty × Supply) :=
  match e.infer level env p with
  | (.error stop, _) => .error stop.fault?
  | (.ok typed, q) =>
    match typed.typeIn q.store with
    | .error f => .error (some f)
    | .ok t => .ok (t, q)

variable {pos namePos : Pos} {name : String} {scope : Scope} {first body value e typed : Expr}
  {params : List Param} {type bound : Ty} {level : Int} {env env' : Bindings} {p q : Supply}

theorem typeIn_of_infer (ok : e.infer level env p = (.ok typed, q)) (s : Store) :
    ∃ t, typed.typeIn s = .ok t := by
  induction e using inferInduction generalizing level env p q typed with
  | literal e name literal =>
    rw [infer_literal literal] at ok
    cases ok
    cases e <;> first | exact ⟨_, rfl⟩ | cases literal
  | refused e refused =>
    obtain ⟨error, invalid, refuses⟩ := refused
    rw [refuses] at ok
    cases ok
  | seq pos first body ihFirst ihBody =>
    obtain ⟨first', p', body', -, done, rfl⟩ := infer_seq_ok ok
    rw [typeIn]
    exact ihBody done
  | var pos name scope type =>
    obtain ⟨scheme, type', -, -, rfl⟩ := infer_var_ok ok
    exact ⟨_, rfl⟩
  | fn pos params body type ih =>
    obtain ⟨body', result, -, -, rfl⟩ := infer_fn_ok ok
    exact ⟨_, rfl⟩
  | letIn pos namePos name value body bound ihValue ihBody =>
    obtain ⟨value', p', t, body', -, -, done, rfl⟩ := infer_letIn_ok ok
    rw [typeIn]
    exact ihBody done
  | nil pos type =>
    cases ok
    exact ⟨_, rfl⟩

theorem settle_of_ok {t : Ty} (ok : e.infer level env p = (.ok typed, q))
    (type : typed.typeIn q.store = .ok t) : e.settle level env p = .ok (t, q) := by
  simp only [settle, ok, type]

theorem settle_of_error {stop : Stop} (stopped : e.infer level env p = (.error stop, q)) :
    e.settle level env p = .error stop.fault? := by
  simp only [settle, stopped]

theorem infer_cases (e : Expr) (level : Int) (env : Bindings) (p : Supply) :
    (∃ stop q, e.infer level env p = (.error stop, q)) ∨
      ∃ typed t q, e.infer level env p = (.ok typed, q) ∧ typed.typeIn q.store = .ok t := by
  rcases run : e.infer level env p with ⟨stop | typed, q⟩
  · exact .inl ⟨stop, q, rfl⟩
  · obtain ⟨t, type⟩ := typeIn_of_infer run q.store
    exact .inr ⟨typed, t, q, rfl, type⟩

theorem settle_seq : (seq pos first body).settle level env p =
    first.settle level env p >>= fun r => body.settle level env r.2 := by
  rcases infer_cases first level env p with ⟨stop, q, stopped⟩ | ⟨typed, t, q, done, type⟩
  · rw [settle_of_error stopped]
    simp only [settle, infer, stopped]
    rfl
  · rw [settle_of_ok done type]
    change _ = body.settle level env q
    simp only [settle, infer, done]
    rcases body.infer level env q with ⟨stop | typed', q'⟩ <;> rfl

theorem settle_fn : (fn pos params body type).settle level env p =
    body.settle level (bindParams level params env p).2.1 (bindParams level params env p).2.2 >>=
      fun r => .ok (.fn (bindParams level params env p).1 r.1, r.2) := by
  rcases infer_cases body level (bindParams level params env p).2.1
    (bindParams level params env p).2.2 with ⟨stop, q, stopped⟩ | ⟨typed, t, q, done, type⟩
  · rw [settle_of_error stopped]
    simp only [settle, infer, stopped]
    rfl
  · rw [settle_of_ok done type]
    simp only [settle, infer, done, type]
    rfl

theorem settle_letIn : (letIn pos (.var namePos name) value body bound).settle level env p =
    value.settle (wrap64 (level + 1)) env p >>= fun r =>
      body.settle level (env.insert name (r.2.store.generalize level r.1).1)
        { r.2 with store := (r.2.store.generalize level r.1).2 } := by
  rcases infer_cases value (wrap64 (level + 1)) env p with
    ⟨stop, q, stopped⟩ | ⟨typed, t, q, done, type⟩
  · rw [settle_of_error stopped]
    simp only [settle, infer, stopped]
    rfl
  · rw [settle_of_ok done type]
    change _ = body.settle level (env.insert name (q.store.generalize level t).1)
      { q with store := (q.store.generalize level t).2 }
    simp only [settle, infer, done, type]
    rcases body.infer level (env.insert name (q.store.generalize level t).1)
      { q with store := (q.store.generalize level t).2 } with ⟨stop | typed', q'⟩ <;> rfl

def settleScheme (level : Int) (p : Supply) : Option Ty → Except (Option Fault) (Ty × Supply)
  | none => .error none
  | some scheme =>
    match p.instantiate level scheme with
    | (.error f, _) => .error (some f)
    | (.ok type, q) => .ok (q.store.head type, q)

theorem settle_var :
    (var pos name scope type).settle level env p = settleScheme level p (env.get? name) := by
  simp only [settle, infer]
  rcases env.get? name with _ | scheme
  · rfl
  · simp only [settleScheme]
    rcases p.instantiate level scheme with ⟨f | type', q⟩ <;> rfl

/-- Inference looks at the free names of an expression only. -/
theorem settle_congr (agree : Bindings.Agree e.freeNames env env') :
    e.settle level env p = e.settle level env' p := by
  induction e using inferInduction generalizing level env env' p with
  | literal e name literal => simp only [settle, infer_literal literal]
  | refused e refused =>
    obtain ⟨error, invalid, refuses⟩ := refused
    simp only [settle, refuses]
  | seq pos first body ihFirst ihBody =>
    rw [settle_seq, settle_seq, ihFirst (agree.mono (List.subset_append_left _ _))]
    congr 1
    funext r
    exact ihBody (agree.mono (List.subset_append_right _ _))
  | var pos name scope type =>
    rw [settle_var, settle_var, agree name (List.mem_singleton_self name)]
  | fn pos params body type ih =>
    obtain ⟨types, agree', supply⟩ := bindParams_agree level params p agree
    rw [settle_fn, settle_fn, types, supply, ih agree']
  | letIn pos namePos name value body bound ihValue ihBody =>
    rw [settle_letIn, settle_letIn, ihValue (agree.mono (List.subset_append_left _ _))]
    congr 1
    funext r
    exact ihBody ((agree.mono (List.subset_append_right _ _)).insert _)
  | nil pos type => rfl

def before (e : Expr) : Option Expr → Expr
  | none => e
  | some rest => .seq {} e rest

def bare : Expr → Expr
  | .int _ _ => .int {} 0
  | .string _ _ => .string {} ""
  | .var _ name _ _ => .var {} name .unresolved .missing
  | .nil _ _ => .nil {} .missing
  | e => e

/-- The expression and what is behind it as one straight line, in which every sequence begins with
    a single form and every binding reaches to the end. -/
def straighten : Expr → Option Expr → Expr
  | .seq _ first body, rest => first.straighten (some (body.straighten rest))
  | .fn _ params body _, rest =>
    before
      (.fn {} (params.map fun param => { name := param.name }) (body.straighten none) .missing) rest
  | .letIn _ (.var _ name) value body _, rest =>
    .letIn {} (.var {} name) (value.straighten none) (body.straighten rest) .missing
  | e, rest => before e.bare rest

theorem freeNames_bare (e : Expr) : e.bare.freeNames = e.freeNames := by
  cases e <;> rfl

theorem settle_bare (e : Expr) : e.bare.settle level env p = e.settle level env p := by
  cases e with
  | var pos name scope type => exact settle_var.trans settle_var.symm
  | _ => rfl

theorem mem_freeNames_before {rest : Option Expr} : name ∈ (before e rest).freeNames ↔
    name ∈ e.freeNames ∨ ∃ later ∈ rest, name ∈ later.freeNames := by
  cases rest <;> simp [before, freeNames]

theorem mem_freeNames_straighten {rest : Option Expr}
    (member : name ∈ (e.straighten rest).freeNames) :
    name ∈ e.freeNames ∨ ∃ later ∈ rest, name ∈ later.freeNames := by
  fun_induction straighten e rest generalizing name with
  | case1 pos first body rest ihBody ihFirst =>
    rcases ihFirst member with inFirst | ⟨_, ⟨⟩, inRest⟩
    · exact .inl (List.mem_append_left _ inFirst)
    · exact (ihBody inRest).imp_left (List.mem_append_right _)
  | case2 pos params body type rest ih =>
    refine (mem_freeNames_before.mp member).imp_left fun inside => ?_
    obtain ⟨inBody, outside⟩ := List.mem_filter.mp inside
    rcases ih inBody with inBody | ⟨_, ⟨⟩, _⟩
    exact List.mem_filter.mpr ⟨inBody, by simpa using outside⟩
  | case3 pos namePos other value body bound rest ihValue ihBody =>
    rcases List.mem_append.mp member with inValue | inside
    · rcases ihValue inValue with inValue | ⟨_, ⟨⟩, _⟩
      exact .inl (List.mem_append_left _ inValue)
    · obtain ⟨inBody, outside⟩ := List.mem_filter.mp inside
      refine (ihBody inBody).imp_left fun inBody => ?_
      exact List.mem_append_right _ (List.mem_filter.mpr ⟨inBody, outside⟩)
  | case4 e rest =>
    rw [← freeNames_bare e]
    exact mem_freeNames_before.mp member

theorem settle_before_congr {e' : Expr} (same : e.settle level env p = e'.settle level env p)
    (rest : Option Expr) :
    (before e rest).settle level env p = (before e' rest).settle level env p := by
  cases rest with
  | none => exact same
  | some later => simp only [before, settle_seq, same]

theorem settle_before_seq (rest : Option Expr) :
    (before (.seq pos first body) rest).settle level env p =
      first.settle level env p >>= fun r => (before body rest).settle level env r.2 := by
  cases rest with
  | none => exact settle_seq
  | some later => simp only [before, settle_seq, bind_assoc]

theorem settle_before_letIn {rest : Option Expr} (unused : ∀ later ∈ rest, name ∉ later.freeNames) :
    (before (.letIn pos (.var namePos name) value body bound) rest).settle level env p =
      (letIn pos (.var namePos name) value (before body rest) bound).settle level env p := by
  cases rest with
  | none => rfl
  | some later =>
    simp only [before, settle_seq, settle_letIn, bind_assoc]
    congr 1
    funext r
    congr 1
    funext r'
    exact (settle_congr (Bindings.Agree.insert_left (unused later rfl) _)).symm

theorem settle_straighten {rest : Option Expr} (separate : e.Separate)
    (unused : ∀ later ∈ rest, ∀ name ∈ e.lineNames, name ∉ later.freeNames) :
    (e.straighten rest).settle level env p = (before e rest).settle level env p := by
  fun_induction straighten e rest generalizing level env p with
  | case1 pos first body rest ihBody ihFirst =>
    obtain ⟨separateFirst, separateBody, apart⟩ := separate
    have unusedFirst : ∀ later ∈ some (body.straighten rest), ∀ name ∈ first.lineNames,
        name ∉ later.freeNames := by
      rintro _ ⟨⟩ name bound used
      rcases mem_freeNames_straighten used with inBody | ⟨later, behind, used⟩
      · exact apart name bound inBody
      · exact unused later behind name (List.mem_append_left _ bound) used
    have unusedBody : ∀ later ∈ rest, ∀ name ∈ body.lineNames, name ∉ later.freeNames :=
      fun later behind name bound => unused later behind name (List.mem_append_right _ bound)
    rw [ihFirst separateFirst unusedFirst, settle_before_seq, before, settle_seq]
    simp only [ihBody separateBody unusedBody]
  | case2 pos params body type rest ih =>
    have same : (params.map fun param => ({ name := param.name } : Param)).map Param.name =
        params.map Param.name := by simp
    refine settle_before_congr ?_ rest
    rw [settle_fn, settle_fn, bindParams_names level env p same, ih separate (by simp), before]
  | case3 pos namePos name value body bound rest ihValue ihBody =>
    have unusedBody : ∀ later ∈ rest, ∀ name ∈ body.lineNames, name ∉ later.freeNames :=
      fun later behind other bound => unused later behind other (List.mem_cons_of_mem _ bound)
    rw [settle_before_letIn fun later behind => unused later behind name List.mem_cons_self,
      settle_letIn, settle_letIn, ihValue separate.1 (by simp), before]
    simp only [ihBody separate.2 unusedBody]
  | case4 e rest => exact settle_before_congr (settle_bare e) rest

theorem settle_straighten_none (separate : e.Separate) :
    (e.straighten none).settle level env p = e.settle level env p :=
  settle_straighten separate (by simp)

end Expr

end LetPoly
