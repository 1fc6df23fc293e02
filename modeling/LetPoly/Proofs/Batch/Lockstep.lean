import LetPoly.Fault
import LetPoly.Proofs.Renaming

namespace LetPoly

/-- What it is for programs of two monads to go side by side. What they return is related, in a way
    that may depend on how far the first has come. -/
structure Lockstep (m n : Type → Type) [Monad m] [Monad n] where
  Keeps : {α β : Type} → (Nat → α → β → Prop) → m α → n β → Prop
  keeps_pure : ∀ {α β : Type} {R : Nat → α → β → Prop} {a : α} {b : β}, (∀ N, R N a b) →
    Keeps R (pure a) (pure b)
  keeps_bind : ∀ {α β γ δ : Type} {R : Nat → α → β → Prop} {Q : Nat → γ → δ → Prop} {x : m α}
    {y : n β} {f : α → m γ} {g : β → n δ}, Keeps R x y →
    (∀ N a b, R N a b → Keeps (fun N' c d => N ≤ N' → Q N' c d) (f a) (g b)) →
    Keeps Q (x >>= f) (y >>= g)

section State

variable {σ σ' α β : Type} {S : σ → σ' → Prop} {far : σ → Nat}

def AbreastFrom (S : σ → σ' → Prop) (far : σ → Nat) (R : Nat → α → β → Prop) (x : StateM σ α)
    (y : StateM σ' β) (st : σ) (st' : σ') : Prop :=
  S (x st).2 (y st').2 ∧ far st ≤ far (x st).2 ∧ R (far (x st).2) (x st).1 (y st').1

def Abreast (S : σ → σ' → Prop) (far : σ → Nat) (R : Nat → α → β → Prop) (x : StateM σ α)
    (y : StateM σ' β) : Prop :=
  ∀ st st', S st st' → AbreastFrom S far R x y st st'

def Lockstep.state (S : σ → σ' → Prop) (far : σ → Nat) : Lockstep (StateM σ) (StateM σ') where
  Keeps := Abreast S far
  keeps_pure holds st st' related := ⟨related, Nat.le_refl _, holds _⟩
  keeps_bind {_ _ _ _ _ _ x y f g} first second := by
    intro st st' related
    obtain ⟨related, le, holds⟩ := first st st' related
    obtain ⟨related, le', holds'⟩ := second _ _ _ holds (x st).2 (y st').2 related
    exact ⟨related, Nat.le_trans le le', holds' le'⟩

def OrFault (allowed : Prop) (R : Nat → α → β → Prop) (N : Nat) :
    Except Fault α → Except Fault β → Prop
  | .ok a, .ok b => R N a b
  | .error f, .error f' => f = f' ∧ allowed
  | .ok _, .error _ | .error _, .ok _ => False

theorem OrFault.imp {allowed : Prop} {R Q : Nat → α → β → Prop} {N : Nat} {r : Except Fault α}
    {r' : Except Fault β} (holds : OrFault allowed R N r r') (weaker : ∀ a b, R N a b → Q N a b) :
    OrFault allowed Q N r r' := by
  cases r with
  | error e =>
    cases r' with
    | error e' => exact holds
    | ok b => exact holds.elim
  | ok a =>
    cases r' with
    | error e' => exact holds.elim
    | ok b => exact weaker a b holds

def Lockstep.except (S : σ → σ' → Prop) (far : σ → Nat) (allowed : Prop) :
    Lockstep (ExceptT Fault (StateM σ)) (ExceptT Fault (StateM σ')) where
  Keeps R x y := Abreast (α := Except Fault _) (β := Except Fault _) S far (OrFault allowed R) x y
  keeps_pure holds st st' related := ⟨related, Nat.le_refl _, holds _⟩
  keeps_bind {_ _ _ _ _ _ x y f g} first second := by
    refine (Lockstep.state S far).keeps_bind (f := ExceptT.bindCont f) (g := ExceptT.bindCont g)
      first fun N r r' holds => ?_
    cases r with
    | error e =>
      cases r' with
      | error e' => exact fun st st' related => ⟨related, Nat.le_refl _, fun _ => holds⟩
      | ok b => exact holds.elim
    | ok a =>
      cases r' with
      | error e' => exact holds.elim
      | ok b =>
        intro st st' related
        obtain ⟨related, le, holds⟩ := second N a b holds st st' related
        refine ⟨related, le, fun later => holds.imp fun c d later' => later' later⟩

variable {R : Nat → α → β → Prop} {allowed : Prop}

theorem keeps_get {k : σ → StateM σ α} {k' : σ' → StateM σ' β}
    (rest : ∀ st st', S st st' → AbreastFrom S far R (k st) (k' st') st st') :
    (Lockstep.state S far).Keeps R (get >>= k) (get >>= k') := rest

theorem keeps_getThe {k : σ → ExceptT Fault (StateM σ) α} {k' : σ' → ExceptT Fault (StateM σ') β}
    (rest : ∀ st st', S st st' → AbreastFrom (α := Except Fault α) (β := Except Fault β) S far
      (OrFault allowed R) (k st) (k' st') st st') :
    (Lockstep.except S far allowed).Keeps R (get >>= k) (get >>= k') := rest

end State

section Replace

variable {m n : Type → Type} [Monad m] [Monad n] {f : Leaf → m Ty} {g : Leaf → n Ty} {t : Ty}
  {R : Nat → Ty → Ty → Prop}

theorem replaceM_lockstep (both : Lockstep m n) (mono : ∀ {N N' t u}, N ≤ N' → R N t u → R N' t u)
    (node : ∀ {N t u head parts parts'}, t.node? = some (head, parts) →
      u.node? = some (head, parts') → List.Forall₂ (R N) parts parts' → R N t u)
    (leaves : ∀ leaf ∈ t.leaves, both.Keeps R (f leaf) (g leaf)) :
    both.Keeps R (t.replaceM f) (t.replaceM g) := by
  -- the relation grows with the states, so the parts done first are related at the end too
  have list : ∀ ts : List Ty, (∀ t ∈ ts, both.Keeps R (t.replaceM f) (t.replaceM g)) →
      both.Keeps (fun N => List.Forall₂ (R N)) (Ty.replaceListM f ts) (Ty.replaceListM g ts) := by
    intro ts each
    induction ts with
    | nil => exact both.keeps_pure fun _ => .nil
    | cons t ts ih =>
      obtain ⟨first, rest⟩ := List.forall_mem_cons.mp each
      refine both.keeps_bind first fun N u u' related => ?_
      refine both.keeps_bind (ih rest) fun N' us us' all => ?_
      exact both.keeps_pure fun N'' later le =>
        .cons (mono le related) (all.imp fun _ _ => mono later)
  have row : ∀ row : Row, (∀ t ∈ row.map Prod.snd, both.Keeps R (t.replaceM f) (t.replaceM g)) →
      both.Keeps (fun N fields fields' => fields.map Prod.fst = row.map Prod.fst ∧
          fields'.map Prod.fst = row.map Prod.fst ∧
          List.Forall₂ (R N) (fields.map Prod.snd) (fields'.map Prod.snd))
        (Ty.replaceRowM f row) (Ty.replaceRowM g row) := by
    intro row each
    induction row with
    | nil => exact both.keeps_pure fun _ => ⟨rfl, rfl, .nil⟩
    | cons field row ih =>
      obtain ⟨first, rest⟩ := List.forall_mem_cons.mp each
      refine both.keeps_bind first fun N u u' related => ?_
      refine both.keeps_bind (ih rest) fun N' us us' all => ?_
      refine both.keeps_pure fun N'' later le => ⟨?_, ?_, ?_⟩
      · simp [all.1]
      · simp [all.2.1]
      · exact .cons (mono le related) (all.2.2.imp fun _ _ => mono later)
  induction t using Ty.partsInduction with
  | leaf leaf => cases leaf <;> exact leaves _ List.mem_cons_self
  | node t head parts top ih =>
    have ih : ∀ part ∈ parts, both.Keeps R (part.replaceM f) (part.replaceM g) :=
      fun part member => ih part member fun leaf met =>
        leaves leaf (Ty.leaves_part_subset top member met)
    cases t with
    | missing | cell => cases top
    | const => exact both.keeps_pure fun _ => node rfl rfl .nil
    | app | tuple =>
      cases top
      refine both.keeps_bind (list _ ih) fun N us us' all => ?_
      exact both.keeps_pure fun N' later => node rfl rfl (all.imp fun _ _ => mono later)
    | fn params result =>
      cases top
      obtain ⟨eachParam, eachResult⟩ := List.forall_mem_append.mp ih
      refine both.keeps_bind (list _ eachParam) fun N us us' all => ?_
      refine both.keeps_bind (eachResult result (by simp)) fun N' u u' related => ?_
      refine both.keeps_pure fun N'' later le => node rfl rfl ?_
      exact List.rel_append (all.imp fun _ _ => mono le) (.cons (mono later related) .nil)
    | record | signature =>
      cases top
      refine both.keeps_bind (row _ ih) fun N us us' all => ?_
      refine both.keeps_pure fun N' later => node rfl ?_ (all.2.2.imp fun _ _ => mono later)
      rw [Ty.node?, all.1, all.2.1]

end Replace

end LetPoly
