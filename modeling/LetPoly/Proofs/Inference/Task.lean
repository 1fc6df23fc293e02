import LetPoly.Proofs.Inference.Typing

namespace LetPoly

namespace Store

variable {s s' : Store} {env : Bindings} {name : String} {t : Ty} {ref : Nat}

def schemes (s : Store) (env : Bindings) : Schemes := fun name => (env.get? name).map s.view

theorem schemes_insert (s : Store) (env : Bindings) (name : String) (t : Ty) :
    s.schemes (env.insert name t) = (s.schemes env).bind name (s.view t) := by
  funext other
  simp only [schemes, Index.get?_insert, Schemes.bind]
  split <;> rfl

/-- Every name is bound to a type with nothing missing in it. -/
def Closed (s : Store) (env : Bindings) : Prop := ∀ name t, env.get? name = some t → s.Complete t

theorem Closed.extend (closed : s.Closed env) (ext : s.Extends s') : s'.Closed env :=
  fun name t bound => (closed name t bound).extend ext

theorem Closed.insert (closed : s.Closed env) (complete : s.Complete t) :
    s.Closed (env.insert name t) := by
  intro other u bound
  rw [Index.get?_insert] at bound
  split at bound
  · cases bound
    exact complete
  · exact closed other u bound

theorem Closed.schemes_extend (closed : s.Closed env) (ext : s.Extends s') :
    s'.schemes env = s.schemes env := by
  funext name
  simp only [schemes]
  cases bound : env.get? name with
  | none => rfl
  | some t => exact congrArg some ((closed name t bound).view_extend ext)

theorem Closed.free_iff (closed : s.Closed env) :
    (s.schemes env).Free ref ↔
      (∃ name t, env.get? name = some t ∧ s.Reaches t ref) ∧ ∃ own, s.state ref = .unbound own := by
  constructor
  · rintro ⟨name, σ, shown, member⟩
    obtain ⟨t, bound, rfl⟩ := Option.map_eq_some_iff.mp shown
    obtain ⟨reach, free⟩ := (var_mem_view (closed name t bound).finite).mp member
    exact ⟨⟨name, t, bound, reach⟩, free⟩
  · rintro ⟨⟨name, t, bound, reach⟩, free⟩
    refine ⟨name, s.view t, ?_, (var_mem_view (closed name t bound).finite).mpr ⟨reach, free⟩⟩
    simp only [schemes, bound, Option.map_some]

/-- The bindings are closed, and no unbound variable that is reached from one is deeper than the
    level. -/
structure Scoped (s : Store) (env : Bindings) (level : Int) : Prop where
  closed : s.Closed env
  levels : ∀ name t ref own, env.get? name = some t → s.Reaches t ref →
    s.state ref = .unbound own → own ≤ level

namespace Scoped

variable {level level' own : Int}

theorem level_le (inScope : s.Scoped env level) (free : (s.schemes env).Free ref)
    (state : s.state ref = .unbound own) : own ≤ level := by
  obtain ⟨⟨name, t, bound, reach⟩, -⟩ := inScope.closed.free_iff.mp free
  exact inScope.levels name t ref own bound reach state

theorem free_inside (inScope : s.Scoped env level) (free : (s.schemes env).Free ref) :
    ref < s.size := by
  obtain ⟨-, own, state⟩ := inScope.closed.free_iff.mp free
  exact lt_size_of_unbound state

theorem of_free (closed : s.Closed env)
    (levels : ∀ {ref own}, (s.schemes env).Free ref → s.state ref = .unbound own → own ≤ level) :
    s.Scoped env level := by
  refine ⟨closed, fun name t ref own bound reach state => levels ?_ state⟩
  exact closed.free_iff.mpr ⟨⟨name, t, bound, reach⟩, own, state⟩

theorem extend (inScope : s.Scoped env level) (ext : s.Extends s') : s'.Scoped env level := by
  refine .of_free (inScope.closed.extend ext) fun free state => ?_
  rw [inScope.closed.schemes_extend ext] at free
  rw [ext.state (inScope.free_inside free)] at state
  exact inScope.level_le free state

theorem deeper (inScope : s.Scoped env level) (le : level ≤ level') : s.Scoped env level' :=
  ⟨inScope.closed, fun name t ref own bound reach state =>
    Int.le_trans (inScope.levels name t ref own bound reach state) le⟩

theorem insert (inScope : s.Scoped env level) (name : String) (complete : s.Complete t)
    (levels : ∀ {ref own}, .var ref ∈ (s.view t).atoms → s.state ref = .unbound own → own ≤ level) :
    s.Scoped (env.insert name t) level := by
  refine ⟨inScope.closed.insert complete, fun other u ref own bound reach state => ?_⟩
  rw [Index.get?_insert] at bound
  split at bound
  · cases bound
    exact levels ((var_mem_view complete.finite).mpr ⟨reach, own, state⟩) state
  · exact inScope.levels other u ref own bound reach state

end Scoped

end Store

theorem bindParams_spec {level : Int} (unmarked : level ≠ genericLevel ∧ level ≠ linkLevel)
    (params : List Param) {env : Bindings} {p : Supply} (inScope : p.store.Scoped env level) :
    (bindParams level params env p).1 = (List.range' p.store.size params.length).map .cell ∧
      (∀ ref ∈ List.range' p.store.size params.length,
        (bindParams level params env p).2.2.store.state ref = .unbound level) ∧
      (bindParams level params env p).2.2.store.Scoped (bindParams level params env p).2.1 level ∧
      (bindParams level params env p).2.2.store.schemes (bindParams level params env p).2.1 =
        (p.store.schemes env).bindParams params
          (Term.vars (List.range' p.store.size params.length)) := by
  induction params generalizing env p with
  | nil => exact ⟨rfl, by simp, inScope, rfl⟩
  | cons param params ih =>
    have grown := Store.extends_alloc p.store p.nextId (.unbound level)
    have free := Store.state_alloc_self p.store p.nextId (.unbound level)
    have reads := Store.Reads.unbound free
    have next : (p.store.alloc p.nextId (.unbound level)).2.Scoped
        (env.insert param.name (.cell p.store.size)) level := by
      refine (inScope.extend grown).insert param.name reads.complete fun member state => ?_
      rw [reads.view_eq] at member
      simp only [Term.atoms_atom, List.mem_singleton, Atom.var.injEq] at member
      rw [member, free] at state
      cases state
      exact Int.le_refl level
    obtain ⟨types, states, scope, schemes⟩ :=
      ih (p := ⟨(p.store.alloc p.nextId (.unbound level)).2, wrap64 (p.nextId + 1)⟩) next
    have steps := Supply.bindParams_steps unmarked params (env.insert param.name (.cell p.store.size))
      ⟨(p.store.alloc p.nextId (.unbound level)).2, wrap64 (p.nextId + 1)⟩
    simp only [Store.size_alloc, Term.vars] at types states schemes
    simp only [bindParams, Supply.freshUnbound_eq p unmarked, List.length_cons, List.range'_succ,
      List.map_cons, Term.vars, Schemes.bindParams]
    refine ⟨by rw [types], List.forall_mem_cons.mpr ⟨?_, states⟩, scope, ?_⟩
    · exact (steps.grows.state (Store.lt_size_of_unbound free)).trans free
    · rw [schemes, Store.schemes_insert, inScope.closed.schemes_extend grown, reads.view_eq]

section Params

variable {level : Int} {params : List Param} {env : Bindings} {p : Supply} {s : Store}

theorem bindParams_drawn (unmarked : level ≠ genericLevel ∧ level ≠ linkLevel)
    (inScope : p.store.Scoped env level)
    (rest : (bindParams level params env p).2.2.store.Extends s) :
    ∀ ref ∈ List.range' p.store.size params.length, s.state ref = .unbound level := by
  intro ref member
  have state := (bindParams_spec unmarked params inScope).2.1 ref member
  exact (rest.state (Store.lt_size_of_unbound state)).trans state

theorem bindParams_reads {result : Ty} {τ : Term Atom}
    (unmarked : level ≠ genericLevel ∧ level ≠ linkLevel) (inScope : p.store.Scoped env level)
    (rest : (bindParams level params env p).2.2.store.Extends s) (reads : s.Reads result τ) :
    s.Reads (.fn (bindParams level params env p).1 result)
      (.node .fn (Term.vars (List.range' p.store.size params.length) ++ [τ])) := by
  rw [(bindParams_spec unmarked params inScope).1]
  refine .node rfl (List.rel_append ?_ (.cons reads .nil))
  rw [Term.vars, List.forall₂_map_left_iff, List.forall₂_map_right_iff, List.forall₂_same]
  exact fun ref member => .unbound (bindParams_drawn unmarked inScope rest ref member)

end Params

namespace Store

variable {s : Store} {env : Bindings} {t : Ty} {ref other : Nat} {level own : Int}

theorem var_mem_closing (member : .var ref ∈ (s.closing level other).atoms) : ref = other := by
  simp only [closing] at member
  split at member
  · split at member
    · simp at member
    · simpa using member
  · simpa using member

theorem closing_of_le (state : s.state ref = .unbound own) (le : own ≤ level) :
    s.closing level ref = .atom (.var ref) := by
  have not : ¬ level < own := Int.not_lt.mpr le
  simp only [closing, state, not, if_false]

theorem closing_of_lt (state : s.state ref = .unbound own) (lt : level < own) :
    s.closing level ref = .atom (.rigid (s.cell ref).id) := by
  simp only [closing, state, lt, if_true]

theorem Scoped.generalize (inScope : s.Scoped env level) (name : String) (complete : s.Complete t) :
    (s.generalize level t).2.Scoped (env.insert name (s.generalize level t).1) level := by
  obtain ⟨grown, reads⟩ := generalize_spec level complete
  refine (inScope.extend grown).insert name reads.complete fun {ref own} member state => ?_
  rw [reads.view_eq, Term.var_mem_subst] at member
  obtain ⟨other, met, kept⟩ := member
  obtain rfl := var_mem_closing kept
  obtain ⟨-, before, unbound⟩ := (var_mem_view complete.finite).mp met
  rw [grown.state (lt_size_of_unbound unbound), unbound] at state
  cases state
  by_contra deeper
  rw [closing_of_lt unbound (Int.not_le.mp deeper)] at kept
  simp at kept

end Store

structure Task where
  expr : Expr
  level : Int
  env : Bindings
  supply : Supply

namespace Task

variable {task task' : Task} {pos namePos : Pos} {name : String} {first body value typed : Expr}
  {params : List Param} {type bound t : Ty} {level : Int} {env : Bindings} {p q : Supply}

def run (task : Task) : Except Stop Expr × Supply := task.expr.infer task.level task.env task.supply

inductive Calls : Task → Task → Prop
  | seqFirst {pos : Pos} {first body : Expr} {level : Int} {env : Bindings} {p : Supply} :
    Calls ⟨.seq pos first body, level, env, p⟩ ⟨first, level, env, p⟩
  | seqBody {pos : Pos} {first body typed : Expr} {level : Int} {env : Bindings} {p q : Supply}
    (done : first.infer level env p = (.ok typed, q)) :
    Calls ⟨.seq pos first body, level, env, p⟩ ⟨body, level, env, q⟩
  | fnBody {pos : Pos} {params : List Param} {body : Expr} {type : Ty} {level : Int} {env : Bindings}
    {p : Supply} :
    Calls ⟨.fn pos params body type, level, env, p⟩
      ⟨body, level, (bindParams level params env p).2.1, (bindParams level params env p).2.2⟩
  | letValue {pos namePos : Pos} {name : String} {value body : Expr} {bound : Ty} {level : Int}
    {env : Bindings} {p : Supply} :
    Calls ⟨.letIn pos (.var namePos name) value body bound, level, env, p⟩
      ⟨value, wrap64 (level + 1), env, p⟩
  | letBody {pos namePos : Pos} {name : String} {value body typed : Expr} {bound t : Ty} {level : Int}
    {env : Bindings} {p q : Supply}
    (done : value.infer (wrap64 (level + 1)) env p = (.ok typed, q))
    (type : typed.typeIn q.store = .ok t) :
    Calls ⟨.letIn pos (.var namePos name) value body bound, level, env, p⟩
      ⟨body, level, env.insert name (q.store.generalize level t).1,
        { q with store := (q.store.generalize level t).2 }⟩

def InRange (task : Task) : Prop := LevelRange task.level task.expr.letDepth

theorem Calls.inRange (calls : task.Calls task') (range : task.InRange) : task'.InRange := by
  cases calls with
  | seqFirst => exact range.mono (Nat.le_max_left _ _)
  | seqBody => exact range.mono (Nat.le_max_right _ _)
  | fnBody => exact range
  | letValue =>
    obtain ⟨wrapped, inner⟩ := LevelRange.next (range.mono (Nat.le_max_left _ _))
    simp only [InRange, wrapped]
    exact inner
  | letBody => exact range.mono (Nat.le_max_right _ _)

theorem Calls.before (calls : task.Calls task') (range : task.InRange) :
    Supply.Steps task.supply task'.supply := by
  cases calls with
  | seqFirst | letValue => exact .refl
  | @seqBody pos first body typed level env p q done =>
    have inner : LevelRange level first.letDepth := range.mono (Nat.le_max_left _ _)
    have steps := Supply.infer_steps env p inner
    rwa [done] at steps
  | fnBody => exact Supply.bindParams_steps range.unmarked _ _ _
  | @letBody pos namePos name value body typed bound t level env p q done type =>
    obtain ⟨wrapped, inner⟩ := LevelRange.next (range.mono (Nat.le_max_left _ _))
    have steps := Supply.infer_steps env p inner
    rw [← wrapped, done] at steps
    exact steps.trans (Supply.generalize_steps q level t)

theorem Calls.after (calls : task.Calls task') (range : task.InRange) :
    Supply.Steps task'.run.2 task.run.2 := by
  cases calls with
  | @seqFirst pos first body level env p =>
    have inner : LevelRange level body.letDepth := range.mono (Nat.le_max_right _ _)
    cases done : first.infer level env p with
    | mk r q =>
      cases r with
      | error stop =>
        simp only [run, Expr.infer, done]
        exact .refl
      | ok typed =>
        simp only [run, Expr.infer_seq_last done, done]
        exact Supply.infer_steps env q inner
  | seqBody done =>
    simp only [run, Expr.infer_seq_last done]
    exact .refl
  | fnBody =>
    simp only [run, Expr.infer_fn_last]
    exact .refl
  | @letValue pos namePos name value body bound level env p =>
    have inner : LevelRange level body.letDepth := range.mono (Nat.le_max_right _ _)
    cases done : value.infer (wrap64 (level + 1)) env p with
    | mk r q =>
      cases r with
      | error stop =>
        simp only [run, Expr.infer, done]
        exact .refl
      | ok typed =>
        cases type : typed.typeIn q.store with
        | error f =>
          simp only [run, Expr.infer, done, type]
          exact .refl
        | ok t =>
          simp only [run, Expr.infer_letIn_last done type, done]
          exact (Supply.generalize_steps q level t).trans (Supply.infer_steps _ _ inner)
  | letBody done type =>
    simp only [run, Expr.infer_letIn_last done type]
    exact .refl

theorem Calls.unwrapped (calls : task.Calls task') (range : task.InRange)
    (room : task.supply.Unwrapped task.run.2) : task'.supply.Unwrapped task'.run.2 := by
  have before := calls.before range
  have after := calls.after range
  have inside := Supply.infer_steps task'.env task'.supply (calls.inRange range)
  exact (room.right before (inside.trans after)).left inside after

/-- What inference is asked for: the bindings are in scope, no level that it comes to is marked, and
    the counter does not wrap on the way. -/
structure Ready (task : Task) : Prop where
  scope : task.supply.store.Scoped task.env task.level
  range : task.InRange
  unwrapped : task.supply.Unwrapped task.run.2

theorem Ready.steps {r : Except Stop Expr} (ready : task.Ready) (done : task.run = (r, q)) :
    Supply.Steps task.supply q := by
  have steps : Supply.Steps task.supply task.run.2 := Supply.infer_steps _ _ ready.range
  rwa [done] at steps

theorem Ready.numbered {r : Except Stop Expr} (ready : task.Ready) (done : task.run = (r, q)) :
    task.supply.Numbered q := by
  have room := ready.unwrapped
  rw [done] at room
  exact Supply.Steps.numbered (ready.steps done) room

theorem Ready.call (ready : task.Ready) (calls : task.Calls task')
    (scope : task'.supply.store.Scoped task'.env task'.level) : task'.Ready :=
  ⟨scope, calls.inRange ready.range, calls.unwrapped ready.range ready.unwrapped⟩

theorem Ready.seqFirst (ready : Ready ⟨.seq pos first body, level, env, p⟩) :
    Ready ⟨first, level, env, p⟩ :=
  ready.call .seqFirst ready.scope

theorem Ready.seqBody (ready : Ready ⟨.seq pos first body, level, env, p⟩)
    (done : first.infer level env p = (.ok typed, q)) : Ready ⟨body, level, env, q⟩ :=
  ready.call (.seqBody done) (ready.scope.extend (ready.seqFirst.steps done).grows)

theorem Ready.fnBody (ready : Ready ⟨.fn pos params body type, level, env, p⟩) :
    Ready ⟨body, level, (bindParams level params env p).2.1, (bindParams level params env p).2.2⟩ :=
  ready.call .fnBody (bindParams_spec ready.range.unmarked params ready.scope).2.2.1

theorem Ready.letValue (ready : Ready ⟨.letIn pos (.var namePos name) value body bound, level, env, p⟩) :
    wrap64 (level + 1) = level + 1 ∧ Ready ⟨value, level + 1, env, p⟩ := by
  obtain ⟨wrapped, -⟩ := LevelRange.next (ready.range.mono (Nat.le_max_left _ _))
  refine ⟨wrapped, ?_⟩
  have calls : Calls ⟨.letIn pos (.var namePos name) value body bound, level, env, p⟩
      ⟨value, wrap64 (level + 1), env, p⟩ := .letValue
  rw [wrapped] at calls
  exact ready.call calls (ready.scope.deeper (Int.le_add_one (Int.le_refl level)))

theorem Ready.letBody (ready : Ready ⟨.letIn pos (.var namePos name) value body bound, level, env, p⟩)
    (done : value.infer (level + 1) env p = (.ok typed, q)) (shown : typed.typeIn q.store = .ok t)
    (complete : q.store.Complete t) :
    Ready ⟨body, level, env.insert name (q.store.generalize level t).1,
      { q with store := (q.store.generalize level t).2 }⟩ := by
  obtain ⟨wrapped, readyValue⟩ := ready.letValue
  have grown := (readyValue.steps done).grows
  rw [← wrapped] at done
  exact ready.call (.letBody done shown) ((ready.scope.extend grown).generalize name complete)

end Task

def sampleValue : Expr :=
  .fn {} [{ name := "y" }]
    (.seq {} (.var {} "z" .unresolved .missing) (.var {} "x" .unresolved .missing)) .missing

def sampleInner : Expr :=
  .letIn {} (.var {} "g") sampleValue (.var {} "g" .unresolved .missing) .missing

def sampleParams : List Param := [{ name := "x" }, { name := "x" }]

def sampleTask : Task where
  expr :=
    .letIn {} (.var {} "f") (.fn {} sampleParams sampleInner .missing)
      (.seq {} (.nil {} .missing) (.var {} "f" .unresolved .missing)) .missing
  level := 0
  env := ⟨[("z", .cell 0)]⟩
  supply := ⟨{ cells := #[⟨0, .unbound 0⟩] }, 1⟩

theorem sampleTask_ready : sampleTask.Ready := by
  have free : sampleTask.supply.store.state 0 = .unbound 0 := rfl
  have bound : ∀ name t, sampleTask.env.get? name = some t → t = .cell 0 := by
    intro name t found
    simp only [sampleTask, Index.get?, List.lookup_cons, List.lookup_nil] at found
    split at found
    · exact (Option.some.inj found).symm
    · cases found
  refine ⟨⟨?_, ?_⟩, ⟨by decide, by decide⟩, by decide +kernel, by decide +kernel⟩
  · intro name t found
    rw [bound name t found]
    exact (Store.Reads.unbound free).complete
  · intro name t ref own found reach state
    rw [bound name t found, Store.reaches_plain (by simp [free])] at reach
    rw [reach, free] at state
    cases state
    decide

end LetPoly
