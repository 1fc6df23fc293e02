import LetPoly.Proofs.Batch.Schemes
import LetPoly.Proofs.Inference.Steps

namespace LetPoly

/-- Two inferred trees that differ in the types written in them only, each of which is related to the
    one in its place. -/
inductive Expr.Alike (P : Ty → Ty → Prop) : Expr → Expr → Prop
  | literal {e : Expr} {name : String} (literal : e.literal? = some name) : Expr.Alike P e e
  | seq {pos : Pos} {first first' body body' : Expr} (ofFirst : Expr.Alike P first first')
    (ofBody : Expr.Alike P body body') : Expr.Alike P (.seq pos first body) (.seq pos first' body')
  | var {pos : Pos} {name : String} {scope : Scope} {t t' : Ty} (type : P t t') :
    Expr.Alike P (.var pos name scope t) (.var pos name scope t')
  | fn {pos : Pos} {params : List Param} {body body' : Expr} {t t' : Ty}
    (ofBody : Expr.Alike P body body') (type : P t t') :
    Expr.Alike P (.fn pos params body t) (.fn pos params body' t')
  | letIn {pos : Pos} {pattern : Pattern} {value value' body body' : Expr} {t t' : Ty}
    (ofValue : Expr.Alike P value value') (ofBody : Expr.Alike P body body') (type : P t t') :
    Expr.Alike P (.letIn pos pattern value body t) (.letIn pos pattern value' body' t')
  | nil {pos : Pos} {t t' : Ty} (type : P t t') : Expr.Alike P (.nil pos t) (.nil pos t')

theorem Expr.Alike.imp {P Q : Ty → Ty → Prop} {e e' : Expr} (alike : e.Alike P e')
    (weaker : ∀ t t', P t t' → Q t t') : e.Alike Q e' := by
  induction alike with
  | literal literal => exact .literal literal
  | seq _ _ ihFirst ihBody => exact .seq ihFirst ihBody
  | var type => exact .var (weaker _ _ type)
  | fn _ type ih => exact .fn ih (weaker _ _ type)
  | letIn _ _ type ihValue ihBody => exact .letIn ihValue ihBody (weaker _ _ type)
  | nil type => exact .nil (weaker _ _ type)

def Bindings.Alike (P : Ty → Ty → Prop) (env env' : Bindings) : Prop :=
  List.Forall₂ (fun a b => b.1 = a.1 ∧ P a.2 b.2) env.entries env'.entries

namespace Bindings.Alike

variable {P Q : Ty → Ty → Prop} {env env' : Bindings} {t t' : Ty}

theorem imp (alike : Bindings.Alike P env env') (weaker : ∀ t t', P t t' → Q t t') :
    Bindings.Alike Q env env' :=
  List.Forall₂.imp (fun _ _ entry => ⟨entry.1, weaker _ _ entry.2⟩) alike

theorem get? (alike : Bindings.Alike P env env') (name : String) :
    (env.get? name = none ∧ env'.get? name = none) ∨
      ∃ t t', env.get? name = some t ∧ env'.get? name = some t' ∧ P t t' := by
  obtain ⟨entries⟩ := env
  obtain ⟨entries'⟩ := env'
  simp only [Index.get?]
  change List.Forall₂ _ entries entries' at alike
  induction alike with
  | nil => exact .inl ⟨rfl, rfl⟩
  | @cons entry entry' _ _ first _ ih =>
    obtain ⟨other, t⟩ := entry
    obtain ⟨other', t'⟩ := entry'
    obtain ⟨rfl, related⟩ := first
    rw [List.lookup_cons, List.lookup_cons]
    cases name == other' with
    | true => exact .inr ⟨t, t', rfl, rfl, related⟩
    | false => exact ih

theorem insert (alike : Bindings.Alike P env env') (name : String) (related : P t t') :
    Bindings.Alike P (env.insert name t) (env'.insert name t') := by
  obtain ⟨entries⟩ := env
  obtain ⟨entries'⟩ := env'
  change List.Forall₂ _ entries entries' at alike
  change List.Forall₂ _ (Index.insertInto name t entries) (Index.insertInto name t' entries')
  induction alike with
  | nil => exact .cons ⟨rfl, related⟩ .nil
  | @cons entry entry' _ _ first rest ih =>
    obtain ⟨other, u⟩ := entry
    obtain ⟨other', u'⟩ := entry'
    obtain ⟨rfl, related'⟩ := first
    simp only [Index.insertInto]
    split
    · exact .cons ⟨rfl, related⟩ (.cons ⟨rfl, related'⟩ rest)
    · split
      · exact .cons ⟨rfl, related⟩ rest
      · exact .cons ⟨rfl, related'⟩ ih

end Bindings.Alike

inductive InferError.Alike (P : Ty → Ty → Prop) : InferError → InferError → Prop
  | same (error : InferError) : InferError.Alike P error error
  | unknownVariable {pos : Pos} {name : String} {visible visible' : Bindings}
    (alike : Bindings.Alike P visible visible') :
    InferError.Alike P (.unknownVariable pos name visible) (.unknownVariable pos name visible')

theorem InferError.Alike.imp {P Q : Ty → Ty → Prop} {error error' : InferError}
    (alike : error.Alike P error') (weaker : ∀ t t', P t t' → Q t t') : error.Alike Q error' := by
  cases alike with
  | same => exact .same error
  | unknownVariable alike => exact .unknownVariable (alike.imp weaker)

namespace Expr

def andThen (r : Except Stop Expr × Supply) (next : Expr → Supply → Except Stop Expr × Supply) :
    Except Stop Expr × Supply :=
  match r with
  | (.error stop, q) => (.error stop, q)
  | (.ok typed, q) => next typed q

variable (pos namePos : Pos) (name : String) (params : List Param) (first body value : Expr)
  (type : Ty) (level : Int) (env : Bindings) (p : Supply)

theorem infer_seq :
    (seq pos first body).infer level env p =
      andThen (first.infer level env p) fun first q =>
        andThen (body.infer level env q) fun body q => (.ok (.seq pos first body), q) := by
  rcases ofFirst : first.infer level env p with ⟨_ | typed, q⟩
  · simp only [infer, ofFirst, andThen]
  · rcases ofBody : body.infer level env q with ⟨_ | typed', r⟩ <;>
      simp only [infer, ofFirst, ofBody, andThen]

theorem infer_fn :
    (fn pos params body type).infer level env p =
      andThen (body.infer level (bindParams level params env p).2.1
          (bindParams level params env p).2.2) fun body q =>
        match body.typeIn q.store with
        | .error f => (.error (.fault f), q)
        | .ok result => (.ok (.fn pos params body (.fn (bindParams level params env p).1 result)), q) := by
  rcases ofBody : body.infer level (bindParams level params env p).2.1
    (bindParams level params env p).2.2 with ⟨_ | typed, q⟩
  · simp only [infer, ofBody, andThen]
  · cases known : typed.typeIn q.store <;> simp only [infer, ofBody, known, andThen]

theorem infer_letIn :
    (letIn pos (.var namePos name) value body type).infer level env p =
      andThen (value.infer (wrap64 (level + 1)) env p) fun value q =>
        match value.typeIn q.store with
        | .error f => (.error (.fault f), q)
        | .ok type =>
          andThen (body.infer level (env.insert name (q.store.generalize level type).1)
              ⟨(q.store.generalize level type).2, q.nextId⟩) fun body r =>
            (.ok (.letIn pos (.var namePos name) value body (q.store.generalize level type).1), r) := by
  rcases ofValue : value.infer (wrap64 (level + 1)) env p with ⟨_ | typed, q⟩
  · simp only [infer, ofValue, andThen]
  · cases known : typed.typeIn q.store with
    | error f => simp only [infer, ofValue, known, andThen]
    | ok t =>
      rcases ofBody : body.infer level (env.insert name (q.store.generalize level t).1)
        ⟨(q.store.generalize level t).2, q.nextId⟩ with ⟨_ | typed', r⟩ <;>
        simp only [infer, ofValue, known, ofBody, andThen]

end Expr

namespace Mirror

variable {m : Mirror} {p p' : Supply} {s s' : Store} {env env' : Bindings} {t t' : Ty} {N N' : Nat}
  {level : Int}

structure Scheme (m : Mirror) (N : Nat) (t t' : Ty) : Prop where
  mates : m.Mates t t'
  kind : (∀ leaf ∈ t.leaves, m.OwnLeaf N leaf) ∨
    ∀ leaf ∈ t.leaves, m.start.store.Sealed m.loose leaf.toTy

theorem Own.scheme (own : m.Own N t t') : m.Scheme N t t' := ⟨own.mates, .inl own.own⟩

theorem Scheme.mono (le : N ≤ N') (scheme : m.Scheme N t t') : m.Scheme N' t t' :=
  ⟨scheme.mates, scheme.kind.imp_left fun own leaf met => (own leaf met).mono le⟩

inductive Outcomes (m : Mirror) (N : Nat) : Except Stop Expr → Except Stop Expr → Prop
  | ok {typed typed' : Expr} (alike : typed.Alike (m.Own N) typed') :
    Outcomes m N (.ok typed) (.ok typed')
  | failed {error error' : InferError} (invalid : Option Expr)
    (alike : error.Alike (m.Scheme N) error') :
    Outcomes m N (.error (.failed error invalid)) (.error (.failed error' invalid))
  | fault (f : Fault) (loose : m.loose) : Outcomes m N (.error (.fault f)) (.error (.fault f))

def Levels (m : Mirror) (level : Int) (depth : Nat) : Prop :=
  ∀ k : Nat, k ≤ depth → wrap64 (level + k) = linkLevel → m.loose

namespace Levels

variable {depth depth' : Nat}

theorem here (levels : m.Levels level depth) (marked : level = linkLevel) : m.loose := by
  refine levels 0 (Nat.zero_le _) ?_
  subst marked
  decide

theorem mono (levels : m.Levels level depth) (le : depth' ≤ depth) : m.Levels level depth' :=
  fun k less => levels k (Nat.le_trans less le)

theorem next (levels : m.Levels level (depth + 1)) : m.Levels (wrap64 (level + 1)) depth := by
  intro k less marked
  rw [wrap64_next_add] at marked
  exact levels (k + 1) (by omega) marked

end Levels

theorem typeIn_alike {e e' : Expr} (facing : m.Facing s s' m.number (m.OwnLeaf N))
    (alike : e.Alike (m.Own N) e') :
    ∃ t t', e.typeIn s = .ok t ∧ e'.typeIn s' = .ok t' ∧ m.Own N t t' := by
  have heads : ∀ {t t'}, m.Own N t t' → m.Own N (s.head t) (s'.head t') := fun own =>
    ⟨(facing.head_eq own.own own.mates).1, (facing.head_eq own.own own.mates).2⟩
  induction alike with
  | @literal e name literal =>
    have const : ∀ decl, m.Own N (.const decl) (.const decl) := fun decl =>
      ⟨rfl, fun leaf met => by cases met⟩
    cases e <;> cases literal <;> exact ⟨_, _, rfl, rfl, const _⟩
  | seq _ _ _ ih => exact ih
  | var own => exact ⟨_, _, rfl, rfl, heads own⟩
  | fn _ own => exact ⟨_, _, rfl, rfl, own⟩
  | letIn _ _ _ _ ih => exact ih
  | nil own => exact ⟨_, _, rfl, rfl, heads own⟩

theorem bindParams_twin (twin : m.Twin p p') (marked : level = linkLevel → m.loose)
    (params : List Param) (scopes : Bindings.Alike (m.Scheme p.store.size) env env') :
    let r := bindParams level params env p
    let r' := bindParams level params env' p'
    m.Twin r.2.2 r'.2.2 ∧ p.store.size ≤ r.2.2.store.size ∧
      List.Forall₂ (m.Own r.2.2.store.size) r.1 r'.1 ∧
      Bindings.Alike (m.Scheme r.2.2.store.size) r.2.1 r'.2.1 := by
  induction params generalizing env env' p p' with
  | nil => exact ⟨twin, Nat.le_refl _, .nil, scopes⟩
  | cons param params ih =>
    have own := twin.own_draw level
    have le : p.store.size ≤ (p.freshUnbound level).2.store.size :=
      (Store.extends_alloc p.store p.nextId (.ofLevel level)).size
    have inner := (scopes.imp fun _ _ => Scheme.mono le).insert param.name own.scheme
    obtain ⟨twin, le', types, scopes⟩ := ih (twin.draw level marked) inner
    exact ⟨twin, Nat.le_trans le le', .cons (own.mono le') types, scopes⟩

/-- Both runs have come from one supply to another, with the outcomes that belong to one another. -/
structure Abides (m : Mirror) (p : Supply) (r r' : Except Stop Expr × Supply) : Prop where
  twin : m.Twin r.2 r'.2
  le : p.store.size ≤ r.2.store.size
  outcomes : m.Outcomes r.2.store.size r.1 r'.1

theorem Abides.since {q : Supply} {r r' : Except Stop Expr × Supply} (abides : m.Abides q r r')
    (le : p.store.size ≤ q.store.size) : m.Abides p r r' :=
  ⟨abides.twin, Nat.le_trans le abides.le, abides.outcomes⟩

theorem Abides.andThen {r r' : Except Stop Expr × Supply}
    {next next' : Expr → Supply → Except Stop Expr × Supply} (abides : m.Abides p r r')
    (rest : ∀ typed typed' q q', m.Twin q q' → p.store.size ≤ q.store.size →
      typed.Alike (m.Own q.store.size) typed' → m.Abides q (next typed q) (next' typed' q')) :
    m.Abides p (Expr.andThen r next) (Expr.andThen r' next') := by
  obtain ⟨r, q⟩ := r
  obtain ⟨r', q'⟩ := r'
  obtain ⟨twin, le, outcomes⟩ := abides
  cases outcomes with
  | ok alike => exact (rest _ _ q q' twin le alike).since le
  | failed invalid alike => exact ⟨twin, le, .failed invalid alike⟩
  | fault f loose => exact ⟨twin, le, .fault f loose⟩

theorem Twin.infer_var (twin : m.Twin p p')
    (scopes : Bindings.Alike (m.Scheme p.store.size) env env') (marked : level = linkLevel → m.loose)
    (pos : Pos) (name : String) (scope : Scope) (type : Ty) :
    m.Abides p ((Expr.var pos name scope type).infer level env p)
      ((Expr.var pos name scope type).infer level env' p') := by
  rcases scopes.get? name with ⟨none, none'⟩ | ⟨t, t', found, found', scheme⟩
  · simp only [Expr.infer, none, none']
    exact ⟨twin, Nat.le_refl _, .failed _ (.unknownVariable scopes)⟩
  · have opened : m.Twin (p.instantiate level t).2 (p'.instantiate level t').2 ∧
        p.store.size ≤ (p.instantiate level t).2.store.size ∧
        OrFault m.loose m.Own (p.instantiate level t).2.store.size (p.instantiate level t).1
          (p'.instantiate level t').1 := by
      -- the numbers of a type from the start do not move, those of the run's own types do
      rcases scheme.kind with own | closed
      · exact twin.instantiate twin.own_openable marked own scheme.mates
      · exact twin.instantiate twin.sealed_openable marked closed scheme.mates
    simp only [Expr.infer, found, found']
    generalize p.instantiate level t = r at opened ⊢
    generalize p'.instantiate level t' = r' at opened ⊢
    obtain ⟨r, q⟩ := r
    obtain ⟨r', q'⟩ := r'
    obtain ⟨twin, le, result⟩ := opened
    cases r with
    | error f =>
      cases r' with
      | ok => exact result.elim
      | error f' =>
        obtain ⟨rfl, loose⟩ := result
        exact ⟨twin, le, .fault f loose⟩
    | ok u =>
      cases r' with
      | error => exact result.elim
      | ok u' => exact ⟨twin, le, .ok (.var result)⟩

theorem Twin.infer {e : Expr} (twin : m.Twin p p')
    (scopes : Bindings.Alike (m.Scheme p.store.size) env env') (levels : m.Levels level e.letDepth) :
    m.Abides p (e.infer level env p) (e.infer level env' p') := by
  induction e using Expr.inferInduction generalizing level env env' p p' with
  | literal e name literal =>
    rw [Expr.infer_literal literal, Expr.infer_literal literal]
    exact ⟨twin, Nat.le_refl _, .ok (.literal literal)⟩
  | refused e refused =>
    obtain ⟨error, invalid, run⟩ := refused
    rw [run, run]
    exact ⟨twin, Nat.le_refl _, .failed invalid (.same error)⟩
  | seq pos first body ihFirst ihBody =>
    rw [Expr.infer_seq, Expr.infer_seq]
    refine (ihFirst twin scopes (levels.mono (Nat.le_max_left _ _))).andThen
      fun first first' q q' twin le alike => ?_
    have scopes := scopes.imp fun _ _ => Scheme.mono le
    refine (ihBody twin scopes (levels.mono (Nat.le_max_right _ _))).andThen
      fun body body' r r' twin le alike' => ?_
    exact ⟨twin, Nat.le_refl _, .ok (.seq (alike.imp fun _ _ => Own.mono le) alike')⟩
  | var pos name scope type => exact twin.infer_var scopes levels.here pos name scope type
  | fn pos params body type ih =>
    rw [Expr.infer_fn, Expr.infer_fn]
    obtain ⟨twin, le, types, scopes⟩ := bindParams_twin twin levels.here params scopes
    refine Abides.since ((ih twin scopes levels).andThen fun body body' q q' twin le alike => ?_) le
    obtain ⟨t, t', known, known', own⟩ :=
      typeIn_alike (twin.lies.own_facing (Nat.le_refl _)) alike
    rw [known, known']
    refine ⟨twin, Nat.le_refl _, .ok (.fn alike (Own.node rfl rfl ?_))⟩
    exact List.rel_append (types.imp fun _ _ => Own.mono le) (.cons own .nil)
  | letIn pos namePos name value body bound ihValue ihBody =>
    rw [Expr.infer_letIn, Expr.infer_letIn]
    -- the value is inferred one level deeper, and generalizing makes cells before the body is reached
    have deeper := (levels.mono (Nat.le_max_left _ _)).next
    refine (ihValue twin scopes deeper).andThen fun value value' q q' twin le alike => ?_
    obtain ⟨t, t', known, known', own⟩ :=
      typeIn_alike (twin.lies.own_facing (Nat.le_refl _)) alike
    rw [known, known']
    obtain ⟨twin, le', bound⟩ := twin.generalize level own
    have scopes := (scopes.imp fun _ _ => Scheme.mono (Nat.le_trans le le')).insert name bound.scheme
    have rest := ihBody twin scopes (levels.mono (Nat.le_max_right _ _))
    refine Abides.since (rest.andThen fun body body' r r' twin le'' alike' => ?_) le'
    refine ⟨twin, Nat.le_refl _, .ok (.letIn ?_ alike' (bound.mono le''))⟩
    exact alike.imp fun _ _ => Own.mono (Nat.le_trans le' le'')
  | nil pos type =>
    have own := twin.own_draw level
    refine ⟨twin.draw level levels.here, ?_, .ok (.nil (Own.node rfl rfl (.cons own .nil)))⟩
    exact (Store.extends_alloc p.store p.nextId (.ofLevel level)).size

end Mirror

end LetPoly
