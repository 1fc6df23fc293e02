import LetPoly.Proofs.Inference.Steps
import LetPoly.Proofs.Unification.Run
import LetPoly.Workspace

namespace LetPoly

namespace Store

variable {s s' s'' : Store} {ref : Nat}

/-- How the cells of a store may differ later on. A cell keeps its number, stays generic, stays bound
    to its type, or is unbound and comes down or is bound. -/
structure Later (s s' : Store) : Prop where
  size : s.size ≤ s'.size
  id : ∀ ref, ref < s.size → (s'.cell ref).id = (s.cell ref).id
  generic : ∀ ref, ref < s.size → s.state ref = .generic → s'.state ref = .generic
  linked : ∀ ref target, s.state ref = .linked target → s'.state ref = .linked target
  unbound : ∀ ref level, s.state ref = .unbound level →
    (∃ lower, lower ≤ level ∧ s'.state ref = .unbound lower) ∨
      ∃ target, s'.state ref = .linked target

theorem Forward.later (forward : s.Forward s') : s.Later s' :=
  ⟨forward.size.ge, fun ref _ => forward.id ref, fun _ _ => forward.generic,
    fun _ _ => forward.linked, fun _ _ => forward.unbound⟩

theorem Extends.later (ext : s.Extends s') : s.Later s' := by
  refine ⟨ext.size, fun ref inside => ?_, fun ref inside generic => ?_, fun ref target linked => ?_,
    fun ref level unbound => .inl ⟨level, le_refl level, ?_⟩⟩
  · rw [ext.cell ref inside]
  · rw [ext.state inside, generic]
  · rw [ext.state (lt_size_of_linked linked), linked]
  · rw [ext.state (lt_size_of_unbound unbound), unbound]

theorem Later.trans (first : s.Later s') (second : s'.Later s'') : s.Later s'' := by
  have inside : ∀ {ref}, ref < s.size → ref < s'.size := fun h => Nat.lt_of_lt_of_le h first.size
  refine ⟨Nat.le_trans first.size second.size, fun ref h => ?_, fun ref h generic => ?_,
    fun ref target linked => ?_, fun ref level unbound => ?_⟩
  · rw [second.id ref (inside h), first.id ref h]
  · exact second.generic ref (inside h) (first.generic ref h generic)
  · exact second.linked ref target (first.linked ref target linked)
  · rcases first.unbound ref level unbound with ⟨lower, le, unbound⟩ | ⟨target, linked⟩
    · rcases second.unbound ref lower unbound with ⟨lowest, le', unbound⟩ | bound
      · exact .inl ⟨lowest, Int.le_trans le' le, unbound⟩
      · exact .inr bound
    · exact .inr ⟨target, second.linked ref target linked⟩

structure Grown (s s' : Store) : Prop where
  kept : s.Extends s'
  made : ∀ ref, s.size ≤ ref → ref < s'.size → ∃ level, s'.state ref = .ofLevel level

namespace Grown

theorem refl (s : Store) : s.Grown s :=
  ⟨.refl s, fun _ outside inside => absurd inside (Nat.not_lt.mpr outside)⟩

theorem trans (first : s.Grown s') (second : s'.Grown s'') : s.Grown s'' := by
  refine ⟨first.kept.trans second.kept, fun ref outside inside => ?_⟩
  by_cases early : ref < s'.size
  · rw [second.kept.state early]
    exact first.made ref outside early
  · exact second.made ref (Nat.not_lt.mp early) inside

theorem alloc (s : Store) (id level : Int) : s.Grown (s.alloc id (.ofLevel level)).2 := by
  refine ⟨extends_alloc _ _ _, fun ref outside inside => ⟨level, ?_⟩⟩
  rw [size_alloc] at inside
  obtain rfl : ref = s.size := by omega
  exact state_alloc_self _ _ _

theorem freshMissing (s : Store) : s.Grown s.freshMissing.2 :=
  ⟨extends_freshMissing s, fun _ outside inside => absurd inside (Nat.not_lt.mpr outside)⟩

theorem unmarked (grown : s.Grown s') (unmarked : s.Unmarked) : s'.Unmarked := by
  intro ref own free
  by_cases old : ref < s.size
  · rw [grown.kept.state old] at free
    exact unmarked free
  · obtain ⟨level, state⟩ := grown.made ref (Nat.not_lt.mp old) (lt_size_of_unbound free)
    rw [state, VarState.ofLevel] at free
    split at free
    · cases free
    · split at free
      · cases free
      · cases free
        constructor <;> assumption

end Grown

theorem newRow_grown (s : Store) (row : Row) : s.Grown (s.newRow row).2 := by
  induction row generalizing s with
  | nil => exact .refl s
  | cons field row ih =>
    obtain ⟨label, t⟩ := field
    cases t with
    | missing mark => exact (Grown.freshMissing s).trans (ih _)
    | _ => exact ih s

end Store

variable {level : Int} {env : Bindings}

theorem Supply.grown_kept : Supply.Kept (fun p q => p.store.Grown q.store) fun _ _ => True where
  refl p := .refl p.store
  trans := .trans
  draw := fun {level _} _ p => .alloc p.store p.nextId level
  name p id := .alloc p.store id genericLevel
  mark p := .freshMissing p.store
  fewer _ _ := True.intro
  next _ := True.intro

theorem Expr.inferTop_supply (e : Expr) (level : Int) (env : Bindings) (p : Supply) :
    (e.inferTop level env p).supply = (e.infer level env p).2 := by
  unfold inferTop
  split
  · rename_i missing
    cases e <;> first | rfl | cases missing
  · split <;> rename_i run <;> rw [run]

theorem Expr.inferTop_grown (e : Expr) (level : Int) (env : Bindings) (p : Supply) :
    p.store.Grown (e.inferTop level env p).supply.store := by
  rw [e.inferTop_supply]
  exact Supply.grown_kept.infer env p True.intro

theorem inferFrom_grown (base : Int) (index : Nat) (es : List Expr) (s : Store) :
    s.Grown (inferFrom level env base index es s).store := by
  induction es generalizing index s with
  | nil => exact .refl s
  | cons e es ih =>
    have first := e.inferTop_grown level env ⟨s, wrap64 (base + index * batchIdRange)⟩
    simp only [inferFrom]
    split
    · exact first
    · exact first
    · split
      · exact first
      · exact first.trans (ih _ _)

theorem inferAll_grown (base : Int) (cancelled : Bool) (es : List Expr) (s : Store) :
    s.Grown (inferAll level env base cancelled es s).store := by
  unfold inferAll
  dsimp only
  split
  · exact .refl s
  · split
    · exact .refl s
    · split
      · exact .refl s
      · exact inferFrom_grown base 0 es s

inductive Action
  | newVar (id level : Int)
  | newEnv (firstId : Int)
  | clone (e : Nat)
  | put (e : Nat) (name : String) (t : Ty)
  | freshUnbound (e : Nat) (level : Int)
  | freshGeneric (e : Nat)
  | newRecord (row : Row)
  | newSignature (row : Row)
  | unify (a b : Ty)
  | generalize (level : Int) (t : Ty)
  | instantiate (e : Nat) (level : Int) (t : Ty)
  | infer (e : Nat) (level : Int) (expr : Expr)
  | inferAll (scope : Option Nat) (level : Int) (cancelled : Bool) (exprs : List Expr)

namespace Workspace

variable {w : Workspace} {action : Action}

def act (w : Workspace) : Action → Workspace
  | .newVar id level => { w with store := (w.store.alloc id (.ofLevel level)).2 }
  | .newEnv firstId => (w.newEnv firstId).2
  | .clone e => (w.clone e).2
  | .put e name t => w.put e name t
  | .freshUnbound e level => (w.freshUnbound e level).2
  | .freshGeneric e => (w.freshGeneric e).2
  | .newRecord row => (w.newRecord row).2
  | .newSignature row => (w.newSignature row).2
  | .unify a b => (w.unify a b).2
  | .generalize level t => (w.generalize level t).2
  | .instantiate e level t => (w.instantiate e level t).2
  | .infer e level expr => (w.infer e level expr).2
  | .inferAll scope level cancelled exprs => (w.inferAll scope level cancelled exprs).2

def actAll (w : Workspace) (actions : List Action) : Workspace := actions.foldl act w

theorem act_grown (other : ∀ a b, action ≠ .unify a b) : w.store.Grown (w.act action).store := by
  cases action with
  | unify a b => exact absurd rfl (other a b)
  | newVar id level => exact .alloc w.store id level
  | newEnv | clone | put => exact .refl w.store
  | freshUnbound e level => exact .alloc w.store (w.nextId e) level
  | freshGeneric e => exact .alloc w.store (w.nextId e) genericLevel
  | newRecord row | newSignature row => exact w.store.newRow_grown row
  | generalize level t => exact Supply.grown_kept.generalize ⟨w.store, 0⟩ level t
  | instantiate e level t => exact Supply.grown_kept.instantiate 0 True.intro (w.supply e) t
  | infer e level expr => exact expr.inferTop_grown level _ (w.supply e)
  | inferAll scope level cancelled exprs => exact inferAll_grown _ cancelled exprs w.store

theorem act_unmarked (unmarked : w.store.Unmarked) (action : Action) :
    (w.act action).store.Unmarked := by
  by_cases solving : ∃ a b, action = .unify a b
  · obtain ⟨a, b, rfl⟩ := solving
    exact (Store.unify_steps unmarked a b).unmarked unmarked
  · exact (act_grown fun a b same => solving ⟨a, b, same⟩).unmarked unmarked

theorem act_later (unmarked : w.store.Unmarked) (action : Action) :
    w.store.Later (w.act action).store := by
  by_cases solving : ∃ a b, action = .unify a b
  · obtain ⟨a, b, rfl⟩ := solving
    exact ((Store.unify_steps unmarked a b).forward unmarked).later
  · exact (act_grown fun a b same => solving ⟨a, b, same⟩).kept.later

theorem act_env {e : Nat} (inside : e < w.envs.size) (other : ∀ name t, action ≠ .put e name t) :
    (w.act action).env e = w.env e := by
  cases action with
  | newEnv firstId =>
    simp only [act, newEnv, env, Array.getElem?_push, Nat.ne_of_lt inside, if_false]
  | clone e' => simp only [act, clone, env, Array.getElem?_push, Nat.ne_of_lt inside, if_false]
  | put e' name t =>
    have different : e' ≠ e := fun same => other name t (same ▸ rfl)
    simp only [act, put, env, Array.getElem?_modify, different, if_false]
  | _ => rfl

theorem actAll_unmarked (unmarked : w.store.Unmarked) (actions : List Action) :
    (w.actAll actions).store.Unmarked := by
  induction actions generalizing w with
  | nil => exact unmarked
  | cons action actions ih => exact ih (act_unmarked unmarked action)

theorem actAll_later (unmarked : w.store.Unmarked) (actions : List Action) :
    w.store.Later (w.actAll actions).store := by
  induction actions generalizing w with
  | nil => exact (Store.Extends.refl w.store).later
  | cons action actions ih =>
    exact (act_later unmarked action).trans (ih (act_unmarked unmarked action))

/-- Cells only move forward, and only solving moves them. Behind any history, every action keeps the
    numbers, the generic variables and the links, and an unbound variable stays at its level, comes
    down or is bound. All but solving leave every cell alone, and a scope alone unless a name is put
    in it. Solving changes only unbound variables that are reached from its two types, also if it
    fails. -/
theorem cells_move_forward (unmarked : w.store.Unmarked) (history : List Action) (action : Action) :
    let before := w.actAll history
    let after := before.act action
    w.store.Later before.store ∧ before.store.Later after.store ∧
    ((∀ a b, action ≠ .unify a b) → before.store.Extends after.store) ∧
    (∀ e, e < before.envs.size → (∀ name t, action ≠ .put e name t) → after.env e = before.env e) ∧
    ∀ a b, action = .unify a b → ∀ ref, after.store.cell ref ≠ before.store.cell ref →
      (before.store.Reaches a ref ∨ before.store.Reaches b ref) ∧
        ∃ level, before.store.state ref = .unbound level := by
  intro before after
  have unmarked' : before.store.Unmarked := actAll_unmarked unmarked history
  refine ⟨actAll_later unmarked history, act_later unmarked' action, fun other => ?_,
    fun e inside other => act_env inside other, fun a b solving ref changed => ?_⟩
  · exact (act_grown other).kept
  · have frame := (Store.unify_steps unmarked' a b).frame ref
    have run : after.store = (before.store.unify a b).1 := by
      change (before.act action).store = _
      rw [solving]
      rfl
    rw [run] at changed
    exact frame.resolve_left changed

def twoLevels : List Action :=
  [.newEnv 5, .freshUnbound 0 1, .freshUnbound 0 2, .put 0 "x" (.cell 0), .generalize 0 (.cell 1)]

theorem cells_move_forward_twoLevels :
    let before := ({} : Workspace).actAll twoLevels
    let a := Ty.tuple [.cell 0, .int]
    let b := Ty.tuple [.list (.cell 1), .string]
    let after := before.act (.unify a b)
    ({} : Workspace).store.Unmarked ∧ (before.unify a b).1.isSome = true ∧
      before.store.Later after.store ∧ before.store.state 1 = .unbound 2 ∧
      after.store.state 0 = .linked (.list (.cell 1)) ∧ after.store.state 1 = .unbound 1 ∧
      after.env 0 = before.env 0 ∧ (before.store.Reaches a 1 ∨ before.store.Reaches b 1) := by
  intro before a b after
  have unmarked : ({} : Workspace).store.Unmarked := fun free =>
    absurd (Store.lt_size_of_unbound free) (Nat.not_lt_zero _)
  obtain ⟨-, later, -, scopes, frame⟩ := cells_move_forward unmarked twoLevels (.unify a b)
  have deeper : before.store.state 1 = .unbound 2 := rfl
  have lowered : after.store.state 1 = .unbound 1 := rfl
  have changed : after.store.cell 1 ≠ before.store.cell 1 := by
    intro same
    have states := congrArg Cell.state same
    change after.store.state 1 = before.store.state 1 at states
    rw [deeper, lowered] at states
    cases states
  have scope : after.env 0 = before.env 0 := by
    refine scopes 0 (by decide) fun name t put => ?_
    cases put
  exact ⟨unmarked, rfl, later, deeper, rfl, lowered, scope, (frame a b rfl 1 changed).1⟩

end Workspace

end LetPoly
