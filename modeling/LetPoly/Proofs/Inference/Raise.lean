import LetPoly.Inference.Context
import LetPoly.Proofs.Batch.Inference

namespace LetPoly

/-- The levels from one on, as far as bindings are nested, are words, and none of them is marked. -/
structure ClearLevels (level : Int) (depth : Nat) : Prop where
  first : 0 ≤ level
  last : level + depth < wordLimit
  apart : level + depth < genericLevel ∨ genericLevel < level

namespace ClearLevels

variable {level : Int} {depth depth' : Nat}

theorem unmarked (clear : ClearLevels level depth) : level ≠ genericLevel ∧ level ≠ linkLevel := by
  have first := clear.first
  have apart := clear.apart
  simp only [linkLevel]
  omega

theorem mono (clear : ClearLevels level depth) (le : depth' ≤ depth) : ClearLevels level depth' := by
  have last := clear.last
  have apart := clear.apart
  exact ⟨clear.first, by omega, by omega⟩

theorem next (clear : ClearLevels level (depth + 1)) :
    wrap64 (level + 1) = level + 1 ∧ ClearLevels (level + 1) depth := by
  have first := clear.first
  have last := clear.last
  have apart := clear.apart
  refine ⟨wrap64_of_isWord ?_, by omega, by omega, by omega⟩
  simp only [IsWord]
  omega

end ClearLevels

namespace VarState

def raise (d : Int) : VarState → VarState
  | .unbound level => .unbound (level + d)
  | .generic => .generic
  | .linked target => .linked target

theorem raise_ofLevel {d level : Int} (unmarked : level ≠ genericLevel ∧ level ≠ linkLevel)
    (unmarked' : level + d ≠ genericLevel ∧ level + d ≠ linkLevel) :
    (ofLevel level).raise d = ofLevel (level + d) := by
  simp only [ofLevel, unmarked, unmarked', if_false, raise]

end VarState

namespace Store

variable {s : Store} {d level id : Int} {t : Ty} {ref : Nat} {n : Nat}

def raise (d : Int) (s : Store) : Store :=
  { s with cells := s.cells.map fun cell => { cell with state := cell.state.raise d } }

theorem size_raise : (s.raise d).size = s.size := by
  simp [size, raise]

theorem cell_raise : (s.raise d).cell ref = ⟨(s.cell ref).id, (s.state ref).raise d⟩ := by
  simp only [cell, state, raise, Array.getElem?_map]
  cases s.cells[ref]? <;> rfl

theorem state_raise : (s.raise d).state ref = (s.state ref).raise d := congrArg Cell.state cell_raise

theorem alloc_raise (s : Store) (d id : Int) (state : VarState) :
    (s.raise d).alloc id (state.raise d) =
      ((s.alloc id state).1, (s.alloc id state).2.raise d) := by
  rw [alloc, size_raise]
  simp only [alloc, raise, Array.map_push]

theorem head_raise : (s.raise d).head t = s.head t := by
  have within (n : Nat) : (s.raise d).headWithin n t = s.headWithin n t := by
    induction n generalizing t with
    | zero => rfl
    | succ n ih =>
      cases t with
      | cell ref =>
        simp only [headWithin, state_raise]
        cases s.state ref with
        | linked target => exact ih
        | unbound | generic => rfl
      | _ => rfl
  rw [head, head, depth, depth, size_raise, within]

theorem isGeneric_raise : (s.raise d).isGeneric t = s.isGeneric t := by
  have within (n : Nat) : (s.raise d).isGenericWithin n t = s.isGenericWithin n t := by
    induction n generalizing t with
    | zero => rfl
    | succ n ih =>
      simp only [isGenericWithin]
      congr 1
      funext leaf
      cases leaf with
      | missing mark => rfl
      | cell ref =>
        simp only [state_raise]
        cases s.state ref with
        | linked target => exact ih
        | unbound | generic => rfl
  rw [isGeneric, isGeneric, depth, depth, size_raise, within]

theorem typeString_raise : (s.raise d).typeString t = s.typeString t := by
  have within (n : Nat) : (s.raise d).typeDocWithin n t = s.typeDocWithin n t := by
    induction n generalizing t with
    | zero => rfl
    | succ n ih =>
      simp only [typeDocWithin]
      congr 1
      funext ref
      simp only [state_raise, cell_raise]
      cases s.state ref with
      | linked target => exact ih
      | unbound | generic => rfl
  simp only [typeString, formatType, showType, typeDoc, depth, size_raise, within]

end Store

section Along

variable {σ ε α β : Type} {f : σ → σ}

/-- The second program does what the first does, on states that are changed in one way. -/
def Along (f : σ → σ) (x y : StateM σ α) : Prop := ∀ st, y (f st) = ((x st).1, f (x st).2)

theorem along_pure (a : α) : Along f (pure a) (pure a) := fun _ => rfl

theorem along_bind {x y : StateM σ α} {next next' : α → StateM σ β} (first : Along f x y)
    (rest : ∀ a, Along f (next a) (next' a)) : Along f (x >>= next) (y >>= next') := by
  intro st
  change next' (y (f st)).1 (y (f st)).2 = ((next (x st).1 (x st).2).1, f (next (x st).1 (x st).2).2)
  rw [first st]
  exact rest _ _

theorem along_get {k k' : σ → StateM σ α}
    (rest : ∀ st, k' (f st) (f st) = ((k st st).1, f (k st st).2)) :
    Along f (get >>= k) (get >>= k') := rest

theorem along_getThe {k k' : σ → ExceptT ε (StateM σ) α}
    (rest : ∀ st, k' (f st) (f st) = ((k st st).1, f (k st st).2)) :
    Along f (get >>= k : ExceptT ε (StateM σ) α).run (get >>= k' : ExceptT ε (StateM σ) α).run := rest

theorem along_throwing {x y : ExceptT ε (StateM σ) α} {next next' : α → ExceptT ε (StateM σ) β}
    (first : Along f x.run y.run) (rest : ∀ a, Along f (next a).run (next' a).run) :
    Along f (x >>= next).run (y >>= next').run := by
  rw [ExceptT.run_bind, ExceptT.run_bind]
  refine along_bind first fun r => ?_
  cases r with
  | ok a => exact rest a
  | error err => exact along_pure _

end Along

namespace Store

variable {d level id : Int}

theorem genericFor_raise (s : Store) (table : Renaming) :
    genericFor id (s.raise d, table) =
      ((genericFor id (s, table)).1, (genericFor id (s, table)).2.1.raise d,
        (genericFor id (s, table)).2.2) := by
  cases found : table.lookup id with
  | some t => simp only [genericFor, found]
  | none =>
    have made := alloc_raise s d id .generic
    simp only [VarState.raise] at made
    simp only [genericFor, found, made]

theorem generalizeWithin_raise (n : Nat) (t : Ty) :
    Along (fun st : Store × Renaming => (st.1.raise d, st.2)) (generalizeWithin level n t)
      (generalizeWithin (level + d) n t) := by
  induction n generalizing t with
  | zero => exact along_pure t
  | succ n ih =>
    refine replaceM_related along_pure along_bind fun leaf _ => ?_
    cases leaf with
    | missing mark => exact fun st => rfl
    | cell ref =>
      refine along_get fun st => ?_
      obtain ⟨s, table⟩ := st
      simp only [state_raise, cell_raise]
      cases s.state ref with
      | linked target => exact ih target (s, table)
      | generic => rfl
      | unbound own =>
        -- both sides of the comparison are raised
        simp only [VarState.raise, Int.add_lt_add_iff_right]
        split
        · exact genericFor_raise s table
        · rfl

theorem generalize_raise (s : Store) (t : Ty) :
    (s.raise d).generalize (level + d) t =
      ((s.generalize level t).1, (s.generalize level t).2.raise d) := by
  simp only [generalize, depth, size_raise]
  rw [generalizeWithin_raise (s.size + 1) t (s, [])]
  rfl

end Store

namespace Supply

variable {p : Supply} {d level id : Int} {t : Ty}

def raise (d : Int) (p : Supply) : Supply := ⟨p.store.raise d, p.nextId⟩

def Raises (d level : Int) : Prop := (VarState.ofLevel level).raise d = .ofLevel (level + d)

theorem freshUnbound_raise (raises : Raises d level) :
    (p.raise d).freshUnbound (level + d) =
      ((p.freshUnbound level).1, (p.freshUnbound level).2.raise d) := by
  unfold Raises at raises
  simp only [freshUnbound, fresh, raise, ← raises, Store.alloc_raise]

theorem instanceOf_raise (raises : Raises d level) (p : Supply) (table : Renaming) :
    instanceOf (level + d) id (p.raise d, table) =
      ((instanceOf level id (p, table)).1, (instanceOf level id (p, table)).2.1.raise d,
        (instanceOf level id (p, table)).2.2) := by
  cases found : table.lookup id with
  | some t => simp only [instanceOf, found]
  | none => simp only [instanceOf, found, freshUnbound_raise raises]

theorem instantiateWithin_raise (raises : Raises d level) (n : Nat) (t : Ty) :
    Along (fun st : Supply × Renaming => (st.1.raise d, st.2)) (instantiateWithin level n t).run
      (instantiateWithin (level + d) n t).run := by
  induction n generalizing t with
  | zero => exact along_pure (Except.ok t)
  | succ n ih =>
    refine replaceM_related (P := fun {α} (x y : ExceptT Fault (StateM (Supply × Renaming)) α) =>
      Along _ x.run y.run) (fun a => along_pure (Except.ok a)) along_throwing fun leaf _ => ?_
    cases leaf with
    | missing mark => exact fun st => rfl
    | cell ref =>
      refine along_getThe fun st => ?_
      obtain ⟨p, table⟩ := st
      simp only [raise, Store.state_raise, Store.cell_raise]
      cases p.store.state ref with
      | unbound own => rfl
      | generic => exact instanceOf_raise raises p table
      | linked target =>
        simp only [VarState.raise, Store.isGeneric_raise]
        cases p.store.isGeneric target with
        | error fault => rfl
        | ok generic =>
          cases generic with
          | true => exact ih target (p, table)
          | false => rfl

theorem instantiate_raise (raises : Raises d level) (p : Supply) (t : Ty) :
    (p.raise d).instantiate (level + d) t =
      ((p.instantiate level t).1, (p.instantiate level t).2.raise d) := by
  have size : (p.raise d).store.size = p.store.size := Store.size_raise
  have run := instantiateWithin_raise raises (p.store.size + 1) t (p, [])
  simp only [ExceptT.run] at run
  simp only [instantiate, Store.depth, size]
  rw [run]
  rfl

theorem bindParams_raise (raises : Raises d level) (params : List Param) (env : Bindings)
    (p : Supply) :
    bindParams (level + d) params env (p.raise d) =
      ((bindParams level params env p).1, (bindParams level params env p).2.1,
        (bindParams level params env p).2.2.raise d) := by
  induction params generalizing env p with
  | nil => rfl
  | cons param params ih => simp only [bindParams, freshUnbound_raise raises, ih]

end Supply

namespace Expr

variable {d level : Int} {e : Expr} {env : Bindings}

theorem typeIn_raise (s : Store) (e : Expr) : e.typeIn (s.raise d) = e.typeIn s := by
  fun_induction e.typeIn s with
  | case6 pos first body ih => exact ih
  | case7 => simp only [typeIn, Store.head_raise]
  | case9 pos pattern value body bound ih => exact ih
  | case10 => simp only [typeIn, Store.head_raise]
  | case1 | case2 | case3 | case4 | case5 | case8 => rfl
  | case11 e => rw [typeIn] <;> assumption

theorem andThen_raise {r : Except Stop Expr × Supply}
    {next next' : Expr → Supply → Except Stop Expr × Supply}
    (rest : ∀ typed q, next' typed (q.raise d) = ((next typed q).1, (next typed q).2.raise d)) :
    andThen (r.1, r.2.raise d) next' = ((andThen r next).1, (andThen r next).2.raise d) := by
  obtain ⟨r, q⟩ := r
  cases r with
  | error stop => rfl
  | ok typed => exact rest typed q

/-- Inference does the same at all levels, if those that it starts from are raised by the same
    amount as all those that it finds. -/
theorem infer_raise (clear : ClearLevels level e.letDepth)
    (clear' : ClearLevels (level + d) e.letDepth) (env : Bindings) (p : Supply) :
    e.infer (level + d) env (p.raise d) =
      ((e.infer level env p).1, (e.infer level env p).2.raise d) := by
  induction e using Expr.inferInduction generalizing level env p with
  | literal e name literal => rw [infer_literal literal, infer_literal literal]
  | refused e refused =>
    obtain ⟨error, invalid, run⟩ := refused
    rw [run, run]
  | seq pos first body ihFirst ihBody =>
    have le := Nat.le_max_left first.letDepth body.letDepth
    have le' := Nat.le_max_right first.letDepth body.letDepth
    rw [infer_seq, infer_seq, ihFirst (clear.mono le) (clear'.mono le)]
    refine andThen_raise fun first q => ?_
    rw [ihBody (clear.mono le') (clear'.mono le')]
    exact andThen_raise fun body q => rfl
  | var pos name scope type =>
    have raises : Supply.Raises d level := VarState.raise_ofLevel clear.unmarked clear'.unmarked
    simp only [infer]
    cases env.get? name with
    | none => rfl
    | some scheme =>
      simp only [Supply.instantiate_raise raises]
      rcases p.instantiate level scheme with ⟨_ | type, q⟩ <;> rfl
  | fn pos params body type ih =>
    have raises : Supply.Raises d level := VarState.raise_ofLevel clear.unmarked clear'.unmarked
    rw [infer_fn, infer_fn, Supply.bindParams_raise raises, ih clear clear']
    refine andThen_raise fun body q => ?_
    simp only [Supply.raise, typeIn_raise]
    cases body.typeIn q.store <;> rfl
  | letIn pos namePos name value body bound ihValue ihBody =>
    have le := Nat.le_max_left (value.letDepth + 1) body.letDepth
    have le' := Nat.le_max_right (value.letDepth + 1) body.letDepth
    obtain ⟨wrapped, deeper⟩ := (clear.mono le).next
    obtain ⟨wrapped', deeper'⟩ := (clear'.mono le).next
    rw [Int.add_right_comm] at deeper'
    rw [infer_letIn, infer_letIn, wrapped, wrapped', Int.add_right_comm, ihValue deeper deeper']
    refine andThen_raise fun value q => ?_
    simp only [Supply.raise, typeIn_raise]
    cases value.typeIn q.store with
    | error fault => rfl
    | ok t =>
      simp only [Store.generalize_raise]
      have run := ihBody (clear.mono le') (clear'.mono le')
        (env.insert name (q.store.generalize level t).1) ⟨(q.store.generalize level t).2, q.nextId⟩
      simp only [Supply.raise] at run
      rw [run]
      exact andThen_raise fun body q => rfl
  | nil pos type =>
    have raises : Supply.Raises d level := VarState.raise_ofLevel clear.unmarked clear'.unmarked
    simp only [infer, Supply.freshUnbound_raise raises]

end Expr

end LetPoly
