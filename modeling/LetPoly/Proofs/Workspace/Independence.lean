import LetPoly.Proofs.Workspace.Scopes

namespace LetPoly

theorem Workspace.act_draws {w : Workspace} {action : Action} {e : Nat}
    (drawer : action.drawer? = some e) (word : IsWord (w.nextId e)) :
    ∃ refs p, (w.supply e).Draws refs p ∧ w.act action = w.withSupply e p ∧
      action.draws w = refs.map (e, ·) := by
  cases action with
  | freshUnbound | freshGeneric =>
    cases drawer
    exact ⟨[w.store.size], _, .one word _, rfl, rfl⟩
  | instantiate e' level t =>
    cases drawer
    exact ⟨_, _, (w.supply e).instantiate_drawsAll level t word, rfl, rfl⟩
  | infer e' level expr =>
    cases drawer
    refine ⟨_, _, Expr.infer_draws word, ?_, rfl⟩
    change w.withSupply e (expr.inferTop level _ (w.supply e)).supply = _
    rw [expr.inferTop_supply]
  | _ => cases drawer

namespace History

variable {operation : Operation} {history : List Operation} {e : Nat}

theorem origin_old (inside : e < opened history) :
    origin (operation :: history) e = origin history e := by
  cases operation with
  | act action =>
    cases action with
    | clone => exact if_neg (Nat.ne_of_lt inside)
    | _ => rfl
  | _ => rfl

theorem first_old (inside : e < opened history) :
    first (operation :: history) e = first history e := by
  have early : e ≠ opened history := Nat.ne_of_lt inside
  cases operation with
  | snapshot e' => rfl
  | fork source firstId => exact if_neg early
  | act action =>
    cases action with
    | newEnv | clone => exact if_neg early
    | _ => rfl

theorem opened_le (operation : Operation) (history : List Operation) :
    opened history ≤ opened (operation :: history) := by
  cases operation with
  | snapshot => exact Nat.le_refl _
  | fork => exact Nat.le_succ _
  | act action =>
    cases action with
    | newEnv | clone => exact Nat.le_succ _
    | _ => exact Nat.le_refl _

theorem origin_of_le (unopened : opened history ≤ e) : origin history e = e := by
  induction history with
  | nil => rfl
  | cons operation earlier ih =>
    have unopened' : opened earlier ≤ e := Nat.le_trans (opened_le operation earlier) unopened
    cases operation with
    | act action =>
      cases action with
      | clone source =>
        have later : e ≠ opened earlier := Nat.ne_of_gt unopened
        exact (if_neg later).trans (ih unopened')
      | _ => exact ih unopened'
    | _ => exact ih unopened'

theorem origin_le (valid : Valid history) (e : Nat) : origin history e ≤ e := by
  induction history generalizing e with
  | nil => exact Nat.le_refl e
  | cons operation earlier ih =>
    obtain ⟨scope, -, valid⟩ := valid
    cases operation with
    | act action =>
      cases action with
      | clone source =>
        have inside : source < opened earlier := scope source rfl
        have older := ih valid source
        have same := ih valid e
        simp only [origin]
        split <;> omega
      | _ => exact ih valid e
    | _ => exact ih valid e

def drawnBy (history : List Operation) (drawn : List (Nat × Nat)) (e : Nat) : List Nat :=
  (drawn.filter fun d => origin history d.1 = origin history e).map Prod.snd

/-- How the counters stand: scopes share one if they have the same origin, and the variables that were
    drawn from it have its numbers from the first one on. -/
structure Ledger (history : List Operation) (s : Session) : Prop where
  unmarked : s.workspace.store.Unmarked
  inside : ∀ d ∈ s.drawn, d.1 < opened history
  counter : ∀ e < opened history, (s.workspace.env e).counter < s.workspace.counters.size
  shared : ∀ a < opened history, ∀ b < opened history,
    (s.workspace.env a).counter = (s.workspace.env b).counter ↔ origin history a = origin history b
  consecutive : ∀ e < opened history,
    Supply.Consecutive (first history e) (drawnBy history s.drawn e) (s.workspace.supply e)

theorem drawnBy_of_origin {history' : List Operation} {drawn : List (Nat × Nat)} {e' : Nat}
    (inside : ∀ d ∈ drawn, d.1 < opened history)
    (old : ∀ a < opened history, origin history' a = origin history a)
    (same : origin history' e' = origin history e) :
    drawnBy history' drawn e' = drawnBy history drawn e := by
  unfold drawnBy
  rw [List.filter_congr]
  intro d member
  rw [old d.1 (inside d member), same]

theorem drawnBy_append (drawn : List (Nat × Nat)) (refs : List Nat) (e e' : Nat) :
    drawnBy history (drawn ++ refs.map (e, ·)) e' =
      drawnBy history drawn e' ++ if origin history e = origin history e' then refs else [] := by
  have own : ((refs.map (e, ·)).filter fun d => origin history d.1 = origin history e').map Prod.snd =
      if origin history e = origin history e' then refs else [] := by
    rw [List.filter_map, List.map_map]
    split
    · rename_i related
      simp [Function.comp_def, related]
    · rename_i unrelated
      simp [Function.comp_def, unrelated]
  rw [drawnBy, List.filter_append, List.map_append, own]
  rfl

variable {action : Action}

theorem mem_scope?_of_drawer? (drawer : action.drawer? = some e) :
    e ∈ (Operation.act action).scope? := by
  cases action with
  | clone | put => cases drawer
  | _ => exact drawer

theorem opened_of_drawer? (drawer : action.drawer? = some e) :
    opened (.act action :: history) = opened history := by
  cases action with
  | newEnv | clone => cases drawer
  | _ => rfl

namespace Ledger

variable {s : Session}

theorem idle (ledger : Ledger history s) {s' : Session}
    (opens : opened (operation :: history) = opened history) (drawn : s'.drawn = s.drawn)
    (counters : s'.workspace.counters = s.workspace.counters)
    (counter : ∀ e, (s'.workspace.env e).counter = (s.workspace.env e).counter)
    (unmarked : s'.workspace.store.Unmarked)
    (later : s.workspace.store.Later s'.workspace.store) : Ledger (operation :: history) s' := by
  refine ⟨unmarked, ?_, ?_, ?_, ?_⟩
  · rw [opens, drawn]
    exact ledger.inside
  · intro e inside
    rw [counter, counters]
    exact ledger.counter e (opens ▸ inside)
  · intro a insideA b insideB
    rw [opens] at insideA insideB
    rw [counter, counter, origin_old insideA, origin_old insideB]
    exact ledger.shared a insideA b insideB
  · intro e inside
    rw [opens] at inside
    have next : s'.workspace.nextId e = s.workspace.nextId e := by
      rw [Workspace.nextId, Workspace.nextId, counter, counters]
    have kept := (ledger.consecutive e inside).kept later.size later.id
    rw [drawn, first_old inside, Workspace.supply, next,
      drawnBy_of_origin ledger.inside (fun _ => origin_old) (origin_old inside)]
    exact kept

theorem push (ledger : Ledger history s) (operation : Operation) (w : Workspace) {new : Env}
    (size : s.workspace.envs.size = opened history)
    (opens : opened (operation :: history) = opened history + 1)
    (pushed : w.envs = s.workspace.envs.push new) (store : w.store = s.workspace.store)
    (more : s.workspace.counters.size ≤ w.counters.size)
    (kept : ∀ c < s.workspace.counters.size, w.counters[c]? = s.workspace.counters[c]?)
    (counter : new.counter < w.counters.size)
    (shared : ∀ a < opened history, (s.workspace.env a).counter = new.counter ↔
      origin history a = origin (operation :: history) (opened history))
    (consecutive : Supply.Consecutive (first (operation :: history) (opened history))
      (drawnBy (operation :: history) s.drawn (opened history)) (w.supply (opened history))) :
    Ledger (operation :: history) { s with workspace := w } := by
  have envNew : w.env (opened history) = new := by
    rw [Workspace.env_push pushed, size, if_pos rfl]
  have envOld {e : Nat} (inside : e < opened history) : w.env e = s.workspace.env e := by
    rw [Workspace.env_push pushed, size, if_neg (Nat.ne_of_lt inside)]
  refine ⟨store ▸ ledger.unmarked, ?_, ?_, ?_, ?_⟩
  · intro d member
    exact Nat.lt_of_lt_of_le (ledger.inside d member) (opened_le operation history)
  · intro e inside
    rw [opens, Nat.lt_succ_iff_lt_or_eq] at inside
    rcases inside with inside | rfl
    · rw [envOld inside]
      exact Nat.lt_of_lt_of_le (ledger.counter e inside) more
    · rw [envNew]
      exact counter
  · intro a insideA b insideB
    rw [opens, Nat.lt_succ_iff_lt_or_eq] at insideA insideB
    rcases insideA with insideA | rfl <;> rcases insideB with insideB | rfl
    · rw [envOld insideA, envOld insideB, origin_old insideA, origin_old insideB]
      exact ledger.shared a insideA b insideB
    · rw [envOld insideA, envNew, origin_old insideA]
      exact shared a insideA
    · rw [envOld insideB, envNew, origin_old insideB, eq_comm, shared b insideB, eq_comm]
    · exact iff_of_true rfl rfl
  · intro e inside
    rw [opens, Nat.lt_succ_iff_lt_or_eq] at inside
    rcases inside with inside | rfl
    · have same : w.supply e = s.workspace.supply e := by
        simp only [Workspace.supply, Workspace.nextId, envOld inside, store,
          kept _ (ledger.counter e inside)]
      rw [first_old inside, same,
        drawnBy_of_origin ledger.inside (fun _ => origin_old) (origin_old inside)]
      exact ledger.consecutive e inside
    · exact consecutive

theorem clone (ledger : Ledger history s) (size : s.workspace.envs.size = opened history)
    (inside : e < opened history) :
    Ledger (.act (.clone e) :: history) { s with workspace := (s.workspace.clone e).2 } := by
  have origin' : origin (.act (.clone e) :: history) (opened history) = origin history e :=
    if_pos rfl
  have first' : first (.act (.clone e) :: history) (opened history) = first history e := if_pos rfl
  have supply : (s.workspace.clone e).2.supply (opened history) = s.workspace.supply e := by
    have env : (s.workspace.clone e).2.env (opened history) = s.workspace.env e := by
      rw [Workspace.env_push rfl, size, if_pos rfl]
    simp only [Workspace.supply, Workspace.nextId, env]
    rfl
  apply ledger.push _ (s.workspace.clone e).2 size rfl rfl rfl (Nat.le_refl _) (fun _ _ => rfl)
    (ledger.counter e inside)
  · intro a insideA
    rw [origin']
    exact ledger.shared a insideA e inside
  · rw [supply, first', drawnBy_of_origin ledger.inside (fun _ => origin_old) origin']
    exact ledger.consecutive e inside

theorem own (ledger : Ledger history s) (operation : Operation) {w : Workspace} {b : Bindings}
    {firstId : Int} (valid : Valid history) (size : s.workspace.envs.size = opened history)
    (opens : opened (operation :: history) = opened history + 1)
    (origin' : origin (operation :: history) (opened history) = origin history (opened history))
    (first' : first (operation :: history) (opened history) = firstId) (word : IsWord firstId)
    (pushed : w.envs = s.workspace.envs.push ⟨b, s.workspace.counters.size⟩)
    (counters : w.counters = s.workspace.counters.push firstId)
    (store : w.store = s.workspace.store) :
    Ledger (operation :: history) { s with workspace := w } := by
  rw [origin_of_le (Nat.le_refl _)] at origin'
  -- a scope that was there goes back to itself or an older one, so it is no kin of the new one
  have unrelated (a : Nat) (inside : a < opened history) : origin history a ≠ opened history :=
    Nat.ne_of_lt (Nat.lt_of_le_of_lt (origin_le valid a) inside)
  apply ledger.push operation w size opens pushed store
  · rw [counters, Array.size_push]
    exact Nat.le_succ _
  · intro c inside
    rw [counters, Array.getElem?_push, if_neg (Nat.ne_of_lt inside)]
  · rw [counters, Array.size_push]
    exact Nat.lt_succ_self _
  · intro a inside
    rw [origin']
    exact iff_of_false (Nat.ne_of_lt (ledger.counter a inside)) (unrelated a inside)
  · have none : drawnBy (operation :: history) s.drawn (opened history) = [] := by
      rw [drawnBy, List.map_eq_nil_iff, List.filter_eq_nil_iff]
      intro d member
      have inside := ledger.inside d member
      rw [origin_old inside, origin']
      simpa using unrelated d.1 inside
    have supply : w.supply (opened history) = ⟨w.store, firstId⟩ := by
      simp only [Workspace.supply, Workspace.nextId, Workspace.env_push pushed, size, if_true, counters,
        Array.getElem?_push_size, Option.getD_some]
    rw [none, supply, first']
    exact .nil word _

theorem draw (ledger : Ledger history s) {refs : List Nat} {p : Supply}
    (operation : Operation) (opens : opened (operation :: history) = opened history)
    (inside : e < opened history) (draws : (s.workspace.supply e).Draws refs p)
    (unmarked : p.store.Unmarked) :
    Ledger (operation :: history)
      { s with
        workspace := s.workspace.withSupply e p
        drawn := s.drawn ++ refs.map (e, ·) } := by
  have insideAll : ∀ d ∈ s.drawn ++ refs.map (e, ·), d.1 < opened history := by
    intro d member
    rcases List.mem_append.mp member with member | member
    · exact ledger.inside d member
    · obtain ⟨ref, -, rfl⟩ := List.mem_map.mp member
      exact inside
  refine ⟨unmarked, ?_, ?_, ?_, ?_⟩
  · rw [opens]
    exact insideAll
  · intro e' inside'
    rw [opens] at inside'
    change (s.workspace.env e').counter < (s.workspace.counters.modify _ _).size
    rw [Array.size_modify]
    exact ledger.counter e' inside'
  · intro a insideA b insideB
    rw [opens] at insideA insideB
    rw [origin_old insideA, origin_old insideB]
    exact ledger.shared a insideA b insideB
  · intro e' inside'
    rw [opens] at inside'
    have before := ledger.consecutive e' inside'
    have shared := ledger.shared e inside e' inside'
    have next := Workspace.nextId_withSupply s.workspace e e' p (ledger.counter e inside)
    -- a scope that shares the counter sees the draws, and all others see no change
    rw [first_old inside', drawnBy_of_origin insideAll (fun _ => origin_old) (origin_old inside'),
      drawnBy_append]
    split
    · rename_i related
      have supply : s.workspace.supply e' = s.workspace.supply e := by
        simp only [Workspace.supply, Workspace.nextId, shared.mpr related]
      have supply' : (s.workspace.withSupply e p).supply e' = p := by
        rw [Workspace.supply, next, if_pos (shared.mpr related)]
        rfl
      rw [supply] at before
      rw [supply']
      exact before.append draws
    · rename_i unrelated
      rw [List.append_nil, Workspace.supply, next, if_neg fun same => unrelated (shared.mp same)]
      exact before.kept draws.kept.size fun ref old =>
        congrArg Cell.id (draws.kept.cell ref old)

theorem step (ledger : Ledger history s) (size : s.workspace.envs.size = opened history)
    (valid : Valid (operation :: history)) : Ledger (operation :: history) (s.step operation) := by
  obtain ⟨scope, word, valid⟩ := valid
  cases operation with
  | snapshot e =>
    exact ledger.idle rfl rfl rfl (fun _ => rfl) ledger.unmarked (Store.Extends.refl _).later
  | fork e firstId =>
    exact ledger.own (.fork e firstId) valid size rfl rfl (if_pos rfl) (word firstId rfl) rfl rfl rfl
  | act action =>
    have unmarked : (s.workspace.act action).store.Unmarked :=
      Workspace.act_unmarked ledger.unmarked action
    have later := Workspace.act_later ledger.unmarked action
    cases drawer : action.drawer? with
    | some e =>
      have inside : e < opened history := scope e (mem_scope?_of_drawer? drawer)
      obtain ⟨refs, p, draws, acted, drawn⟩ :=
        Workspace.act_draws drawer (ledger.consecutive e inside).word
      rw [acted] at unmarked
      rw [Session.step, acted, drawn]
      exact ledger.draw (.act action) (opened_of_drawer? drawer) inside draws unmarked
    | none =>
      rw [Session.step_act s drawer]
      cases action with
      | newEnv firstId =>
        exact ledger.own _ valid size rfl rfl (if_pos rfl) (word firstId rfl) rfl rfl rfl
      | clone e => exact ledger.clone size (scope e rfl)
      | put e name t =>
        refine ledger.idle rfl rfl rfl (fun other => ?_) unmarked later
        change ((s.workspace.put e name t).env other).counter = _
        rw [Workspace.env_put s.workspace e other name t (size ▸ scope e rfl)]
        split <;> rfl
      | freshUnbound | freshGeneric | instantiate | infer => cases drawer
      | _ => exact ledger.idle rfl rfl rfl (fun _ => rfl) unmarked later

theorem distinct (ledger : Ledger history s) (inside : e < opened history)
    (few : (drawnBy history s.drawn e).length ≤ wordCount) :
    s.drawn.Pairwise fun x y => origin history x.1 = origin history e →
      origin history y.1 = origin history e →
      (s.workspace.store.cell x.2).id ≠ (s.workspace.store.cell y.2).id := by
  have nodup := (ledger.consecutive e inside).nodup few
  rw [drawnBy, List.Nodup, List.pairwise_map, List.pairwise_map, List.pairwise_filter] at nodup
  simp only [decide_eq_true_eq] at nodup
  exact nodup

end Ledger

theorem after_ledger (valid : Valid history) : Ledger history (Session.after history) := by
  induction history with
  | nil =>
    refine ⟨fun free => absurd (Store.lt_size_of_unbound free) (Nat.not_lt_zero _),
      fun d member => absurd member List.not_mem_nil, ?_, ?_, ?_⟩
    all_goals exact fun e inside => absurd inside (Nat.not_lt_zero e)
  | cons operation earlier ih => exact (ih valid.2.2).step (size_after earlier) valid

/-- Scopes are independent of one another, behind any history. A look-up finds the type that was put
    last on the name in that scope, or else what its source held when it was made from it, and the
    names come in increasing order, to be read unless one of them has no type. So a name that is put
    in a scope is not seen in another one, and a snapshot stays as it was taken. The variables that
    clones draw are numbered from one counter, one after the other, so that they have different
    numbers until it comes around. -/
theorem scopes_independent (history : List Operation) (valid : Valid history) :
    let s := Session.after history
    let w := s.workspace
    (∀ e < opened history, (w.snapshot e).Holds (held history e) ∧
      ((w.snapshot e).readNames =
        if (w.snapshot e).hasMissing then .error .missingType else .ok (w.snapshot e).names) ∧
      ∀ name, w.get e name = answer (held history e name)) ∧
    (∀ e < opened history, ∀ name t, (s.step (.act (.put e name t))).views = s.views ∧
      ∀ e' < opened history, ∀ name', (e', name') ≠ (e, name) →
        (w.put e name t).get e' name' = w.get e' name') ∧
    (∀ later earlier e, history = later ++ .snapshot e :: earlier →
      ∃ view, s.views[(Session.after earlier).views.length]? = some view ∧
        view.Holds (held earlier e)) ∧
    (∀ e < opened history,
      Supply.Consecutive (first history e) (drawnBy history s.drawn e) (w.supply e) ∧
      ((drawnBy history s.drawn e).length ≤ wordCount →
        s.drawn.Pairwise fun x y => origin history x.1 = origin history e →
          origin history y.1 = origin history e →
          (w.store.cell x.2).id ≠ (w.store.cell y.2).id)) ∧
    ∀ action e, action.drawer? = some e → e < opened history →
      ∀ ref, w.store.size ≤ ref → ref < (w.act action).store.size →
        (e, ref) ∈ (s.step (.act action)).drawn ∨ (w.act action).store.state ref = .generic := by
  intro s w
  have ledger : Ledger history s := after_ledger valid
  refine ⟨?_, ?_, ?_, ?_, ?_⟩
  · intro e inside
    exact ⟨after_holds valid e inside, (w.snapshot e).readNames_eq, get_eq_answer valid inside⟩
  · intro e inside name t
    refine ⟨rfl, fun e' inside' name' different => ?_⟩
    have valid' : Valid (.act (.put e name t) :: history) :=
      ⟨fun _ same => Option.some.inj same ▸ inside, fun _ absent => (by cases absent), valid⟩
    -- what is held in the other scope does not depend on the last operation
    have unseen : held (.act (.put e name t) :: history) e' name' = held history e' name' :=
      if_neg fun (same : e = e' ∧ name = name') => different (same.1 ▸ same.2 ▸ rfl)
    rw [get_eq_answer valid inside', ← unseen]
    exact get_eq_answer valid' inside' name'
  · intro later earlier e split
    rw [split] at valid
    obtain ⟨scope, -, valid⟩ := valid.earlier
    refine ⟨_, ?_, after_holds valid e (scope e rfl)⟩
    obtain ⟨rest, views⟩ := views_prefix later (.snapshot e :: earlier)
    rw [← split] at views
    change (Session.after history).views[_]? = _
    rw [← views]
    simp [Session.after, Session.step, Workspace.snapshot]
  · intro e inside
    exact ⟨ledger.consecutive e inside, ledger.distinct inside⟩
  · intro action e drawer inside ref old new
    obtain ⟨refs, p, draws, acted, drawn⟩ := Workspace.act_draws drawer (ledger.consecutive e inside).word
    rw [acted] at new ⊢
    rcases draws.made ref old new with member | generic
    · left
      rw [Session.step, drawn]
      exact List.mem_append_right _ (List.mem_map_of_mem member)
    · exact .inr generic

def siblings : List Operation :=
  [.act (.freshGeneric 2), .act (.freshGeneric 1),
    .act (.infer 1 1
      (.fn {} [⟨{}, "x"⟩] (.seq {} (.nil {} .missing) (.var {} "y" .unresolved .missing)) .missing)),
    .act (.freshUnbound 0 1), .act (.put 1 "x" .float), .fork 0 500, .act (.put 1 "a" .string),
    .act (.clone 0), .snapshot 0, .act (.put 0 "x" .int), .act (.newEnv (wordLimit - 2))]

theorem scopes_independent_siblings :
    let s := Session.after siblings
    let w := s.workspace
    Valid siblings ∧ w.get 0 "x" = .ok (some .int) ∧ w.get 1 "x" = .ok (some .float) ∧
      w.get 2 "x" = .ok (some .int) ∧ w.get 0 "a" = .ok none ∧
      (w.snapshot 1).names.Pairwise (· < ·) ∧
      (∃ view, s.views[0]? = some view ∧ view.get? "x" = some .int ∧ "a" ∉ view.names) ∧
      s.drawn = [(0, 0), (1, 1), (1, 2), (1, 3), (2, 4)] ∧ (w.store.cell 3).id = -wordLimit + 1 ∧
      (w.store.cell 4).id = 500 ∧
      s.drawn.Pairwise fun x y => origin siblings x.1 = 0 → origin siblings y.1 = 0 →
        (w.store.cell x.2).id ≠ (w.store.cell y.2).id := by
  have valid : Valid siblings := by decide
  obtain ⟨scopes, -, views, counters, -⟩ := scopes_independent siblings valid
  obtain ⟨view, taken, holds⟩ := views (siblings.take 8) (siblings.drop 9) 0 rfl
  refine ⟨valid, (scopes 0 (by decide)).2.2 "x", (scopes 1 (by decide)).2.2 "x",
    (scopes 2 (by decide)).2.2 "x", (scopes 0 (by decide)).2.2 "a",
    (scopes 1 (by decide)).1.increasing, ⟨view, taken, holds.get? "x", ?_⟩, by decide, by decide,
    by decide, (counters 0 (by decide)).2 (by decide)⟩
  rw [holds.mem_names]
  decide

end History

end LetPoly
