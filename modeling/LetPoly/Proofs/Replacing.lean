import LetPoly.Proofs.Extension

namespace LetPoly

/-- What it is for a program of a monad to go from one state to another and to return something.
    Where it fails to return, it has a last state nonetheless. -/
structure Running (m : Type → Type) [Monad m] (σ : Type) where
  Runs : {α : Type} → m α → σ → α → σ → Prop
  last : {α : Type} → m α → σ → σ
  runs_pure : ∀ {α : Type} (a : α) (st : σ), Runs (pure a) st a st
  runs_bind : ∀ {α β : Type} {x : m α} {f : α → m β} {a : α} {b : β} {st st' st'' : σ},
    Runs x st a st' → Runs (f a) st' b st'' → Runs (x >>= f) st b st''
  last_pure : ∀ {α : Type} (a : α) (st : σ), last (pure a) st = st
  last_bind : ∀ {α β : Type} (x : m α) (f : α → m β) (st : σ),
    last (x >>= f) st = last x st ∨ ∃ a, last (x >>= f) st = last (f a) (last x st)

def Running.state (σ : Type) : Running (StateM σ) σ where
  Runs x st a st' := x st = (a, st')
  last x st := (x st).2
  runs_pure _ _ := rfl
  runs_bind {_ _ x f _ _ _ _ _} first second := by
    change (match x _ with | (a, st) => f a st) = _
    rw [first]
    exact second
  last_pure _ _ := rfl
  last_bind x _ st := .inr ⟨(x st).1, rfl⟩

def Running.except (ε σ : Type) : Running (ExceptT ε (StateM σ)) σ where
  Runs x st a st' := x st = (.ok a, st')
  last x st := (x st).2
  runs_pure _ _ := rfl
  runs_bind {_ _ x f _ _ _ _ _} first second := by
    change (match x _ with | (r, st) => ExceptT.bindCont f r st) = _
    rw [first]
    exact second
  last_pure _ _ := rfl
  last_bind x f st := by
    change (match x st with | (r, st) => ExceptT.bindCont f r st).2 = _ ∨
      ∃ a, (match x st with | (r, st) => ExceptT.bindCont f r st).2 = _
    cases x st with
    | mk r st' =>
      cases r with
      | ok a => exact .inr ⟨a, rfl⟩
      | error e => exact .inl rfl

theorem replaceM_related {m n : Type → Type} [Monad m] [Monad n]
    {P : ∀ {α : Type}, m α → n α → Prop} (pure : ∀ {α : Type} (a : α), P (pure a) (pure a))
    (bind : ∀ {α β : Type} {x : m α} {y : n α} {f : α → m β} {g : α → n β}, P x y →
      (∀ a, P (f a) (g a)) → P (x >>= f) (y >>= g)) {f : Leaf → m Ty} {g : Leaf → n Ty} {t : Ty}
    (leaves : ∀ leaf ∈ t.leaves, P (f leaf) (g leaf)) : P (t.replaceM f) (t.replaceM g) := by
  have list : ∀ ts : List Ty, (∀ t ∈ ts, P (t.replaceM f) (t.replaceM g)) →
      P (Ty.replaceListM f ts) (Ty.replaceListM g ts) := by
    intro ts each
    induction ts with
    | nil => exact pure _
    | cons t ts ih =>
      obtain ⟨first, rest⟩ := List.forall_mem_cons.mp each
      exact bind first fun _ => bind (ih rest) fun _ => pure _
  have row : ∀ row : Row, (∀ t ∈ row.map Prod.snd, P (t.replaceM f) (t.replaceM g)) →
      P (Ty.replaceRowM f row) (Ty.replaceRowM g row) := by
    intro row each
    induction row with
    | nil => exact pure _
    | cons field row ih =>
      obtain ⟨first, rest⟩ := List.forall_mem_cons.mp each
      exact bind first fun _ => bind (ih rest) fun _ => pure _
  induction t using Ty.partsInduction with
  | leaf leaf => cases leaf <;> exact leaves _ List.mem_cons_self
  | node t head parts top ih =>
    have ih : ∀ part ∈ parts, P (part.replaceM f) (part.replaceM g) := fun part member =>
      ih part member fun leaf met => leaves leaf (Ty.leaves_part_subset top member met)
    cases t with
    | missing | cell => cases top
    | const => exact pure _
    | app | tuple =>
      cases top
      exact bind (list _ ih) fun _ => pure _
    | fn params result =>
      cases top
      obtain ⟨eachParam, eachResult⟩ := List.forall_mem_append.mp ih
      exact bind (list _ eachParam) fun _ => bind (eachResult result (by simp)) fun _ => pure _
    | record | signature =>
      cases top
      exact bind (row _ ih) fun _ => pure _

section Moves

variable {m : Type → Type} [Monad m] {σ α β : Type} {run : Running m σ} {R : σ → σ → Prop}

def Moves (run : Running m σ) (R : σ → σ → Prop) (x : m α) : Prop := ∀ st, R st (run.last x st)

theorem moves_pure (refl : ∀ st, R st st) (a : α) : Moves run R (pure a : m α) := by
  intro st
  rw [run.last_pure]
  exact refl st

theorem moves_bind (trans : ∀ st st' st'', R st st' → R st' st'' → R st st'') {x : m α}
    {f : α → m β} (first : Moves run R x) (second : ∀ a, Moves run R (f a)) :
    Moves run R (x >>= f) := by
  intro st
  rcases run.last_bind x f st with same | ⟨a, same⟩
  · rw [same]
    exact first st
  · rw [same]
    exact trans _ _ _ (first st) (second a _)

theorem moves_get {k : σ → StateM σ α} (rest : ∀ st, R st ((Running.state σ).last (k st) st)) :
    Moves (Running.state σ) R (get >>= k) := rest

theorem moves_getThe {ε : Type} {k : σ → ExceptT ε (StateM σ) α}
    (rest : ∀ st, R st ((Running.except ε σ).last (k st) st)) :
    Moves (Running.except ε σ) R (get >>= k) := rest

theorem replaceM_moves (refl : ∀ st, R st st)
    (trans : ∀ st st' st'', R st st' → R st' st'' → R st st'') {f : Leaf → m Ty}
    (leaves : ∀ leaf, Moves run R (f leaf)) (t : Ty) : Moves run R (t.replaceM f) :=
  replaceM_related (n := m) (g := f) (P := fun x _ => Moves run R x) (fun _ => moves_pure refl _)
    (fun first second => moves_bind trans first second) fun leaf _ => leaves leaf

end Moves

structure World (σ : Type) where
  Valid : σ → Prop
  Le : σ → σ → Prop
  refl : ∀ st, Le st st
  trans : ∀ {st st' st''}, Le st st' → Le st' st'' → Le st st''

section Replace

variable {m : Type → Type} [Monad m] {σ α β : Type} {run : Running m σ} {world : World σ}
  {G : σ → α → Prop} {H : σ → β → Prop} {st : σ}

/-- The program ends in a later state, where its result has the property and keeps it. -/
def Yields (run : Running m σ) (world : World σ) (G : σ → α → Prop) (x : m α) (st : σ) : Prop :=
  ∃ a st', run.Runs x st a st' ∧ world.Valid st' ∧ world.Le st st' ∧
    ∀ st'', world.Valid st'' → world.Le st' st'' → G st'' a

theorem yields_pure {a : α} (valid : world.Valid st)
    (holds : ∀ st', world.Valid st' → world.Le st st' → G st' a) : Yields run world G (pure a) st :=
  ⟨a, st, run.runs_pure a st, valid, world.refl st, holds⟩

theorem yields_bind {x : m α} {f : α → m β} (first : Yields run world G x st)
    (second : ∀ a st', world.Valid st' → world.Le st st' →
      (∀ st'', world.Valid st'' → world.Le st' st'' → G st'' a) → Yields run world H (f a) st') :
    Yields run world H (x >>= f) st := by
  obtain ⟨a, st', runs, valid, le, holds⟩ := first
  obtain ⟨b, st'', runs', valid', le', holds'⟩ := second a st' valid le holds
  exact ⟨b, st'', run.runs_bind runs runs', valid', world.trans le le', holds'⟩

theorem yields_map {x : m α} {f : α → β} (first : Yields run world G x st)
    (second : ∀ st', world.Valid st' → world.Le st st' → ∀ a, G st' a → H st' (f a)) :
    Yields run world H (x >>= fun a => pure (f a)) st :=
  yields_bind first fun a _ valid le holds =>
    yields_pure valid fun st'' valid' le' =>
      second st'' valid' (world.trans le le') a (holds st'' valid' le')

theorem yields_get {k : σ → StateM σ α} (rest : Yields (Running.state σ) world G (k st) st) :
    Yields (Running.state σ) world G (get >>= k) st := rest

theorem yields_getThe {ε : Type} {k : σ → ExceptT ε (StateM σ) α}
    (rest : Yields (Running.except ε σ) world G (k st) st) :
    Yields (Running.except ε σ) world G (get >>= k) st := rest

variable {L : σ → Ty → Ty → Prop} {f : Leaf → m Ty}

def Relates (run : Running m σ) (world : World σ) (L : σ → Ty → Ty → Prop) (t : Ty) (x : m Ty) :
    Prop :=
  ∀ st, world.Valid st → Yields run world (fun st u => L st t u) x st

theorem yields_replaceList {ts : List Ty} (valid : world.Valid st)
    (each : ∀ t ∈ ts, Relates run world L t (t.replaceM f)) :
    Yields run world (fun st us => List.Forall₂ (L st) ts us) (Ty.replaceListM f ts) st := by
  induction ts generalizing st with
  | nil => exact yields_pure valid fun _ _ _ => .nil
  | cons t ts ih =>
    obtain ⟨first, rest⟩ := List.forall_mem_cons.mp each
    refine yields_bind (first st valid) fun u st' valid' _ related => ?_
    exact yields_map (ih valid' rest) fun st'' valid'' le us all =>
      .cons (related st'' valid'' le) all

theorem yields_replaceRow {row : Row} (valid : world.Valid st)
    (each : ∀ t ∈ row.map Prod.snd, Relates run world L t (t.replaceM f)) :
    Yields run world
      (fun st fields => fields.map Prod.fst = row.map Prod.fst ∧
        List.Forall₂ (L st) (row.map Prod.snd) (fields.map Prod.snd))
      (Ty.replaceRowM f row) st := by
  induction row generalizing st with
  | nil => exact yields_pure valid fun _ _ _ => ⟨rfl, .nil⟩
  | cons field row ih =>
    obtain ⟨label, t⟩ := field
    obtain ⟨first, rest⟩ := List.forall_mem_cons.mp each
    refine yields_bind (first st valid) fun u st' valid' _ related => ?_
    refine yields_map (ih valid' rest) fun st'' valid'' le fields all => ⟨?_, ?_⟩
    · simp [all.1]
    · exact .cons (related st'' valid'' le) all.2

theorem replaceM_relates {t : Ty}
    (node : ∀ st t u head parts parts', t.node? = some (head, parts) →
      u.node? = some (head, parts') → List.Forall₂ (L st) parts parts' → L st t u)
    (leaves : ∀ leaf ∈ t.leaves, Relates run world L leaf.toTy (f leaf)) :
    Relates run world L t (t.replaceM f) := by
  induction t using Ty.partsInduction with
  | leaf leaf =>
    have same : leaf.toTy.replaceM f = f leaf := by
      cases leaf <;> rfl
    rw [same]
    exact leaves leaf (by simp)
  | node t head parts top ih =>
    intro st valid
    have each : ∀ part ∈ parts, Relates run world L part (part.replaceM f) :=
      fun part member => ih part member fun leaf met =>
        leaves leaf (Ty.leaves_part_subset top member met)
    cases t with
    | missing | cell => cases top
    | const => exact yields_pure valid fun st' _ _ => node st' _ _ _ _ _ rfl rfl .nil
    | app | tuple =>
      cases top
      exact yields_map (yields_replaceList valid each) fun st' _ _ _ all =>
        node st' _ _ _ _ _ rfl rfl all
    | fn params result =>
      cases top
      obtain ⟨eachParam, eachResult⟩ := List.forall_mem_append.mp each
      refine yields_bind (yields_replaceList valid eachParam) fun us st' valid' _ all => ?_
      refine yields_map (eachResult result (by simp) st' valid') fun st'' valid'' le u related => ?_
      exact node st'' _ _ _ _ _ rfl rfl
        (List.rel_append (all st'' valid'' le) (.cons related .nil))
    | record | signature =>
      cases top
      refine yields_map (yields_replaceRow valid each) fun st' _ _ fields all => ?_
      exact node st' _ _ _ _ _ rfl (by rw [Ty.node?, all.1]) all.2

variable {store : σ → Store} {F : σ → Leaf → Term Atom}

def Replaces (run : Running m σ) (world : World σ) (store : σ → Store) (F : σ → Leaf → Term Atom)
    (t : Ty) (x : m Ty) : Prop :=
  ∀ st, world.Valid st → Yields run world (fun st u => (store st).Reads u (t.tree.bind (F st))) x st

theorem bind_tree_of_node {t : Ty} {head : Head} {parts : List Ty} {g : Leaf → Term Atom}
    (top : t.node? = some (head, parts)) :
    t.tree.bind g = .node head (parts.map (·.tree.bind g)) := by
  rw [Ty.tree_of_node top, Term.bind_node, List.map_map]
  rfl

theorem replaceM_replaces {t : Ty}
    (leaves : ∀ leaf ∈ t.leaves, Replaces run world store F leaf.toTy (f leaf)) :
    Replaces run world store F t (t.replaceM f) := by
  refine replaceM_relates (L := fun st t u => (store st).Reads u (t.tree.bind (F st))) ?_ leaves
  intro st t u head parts parts' top top' all
  rw [bind_tree_of_node top]
  exact .node top' (List.forall₂_map_right_iff.mpr all.flip)

end Replace

end LetPoly
