import LetPoly.Inference.Batch

namespace LetPoly

structure Env where
  bindings : Bindings := {}
  counter : Nat

/-- All that changes while types are built and inferred: the variables, the counters of their
    numbers, and the scopes. Scopes that were cloned from one another share a counter. -/
structure Workspace where
  store : Store := {}
  counters : Array Int := #[]
  envs : Array Env := #[]

namespace Workspace

def env (w : Workspace) (e : Nat) : Env := w.envs[e]?.getD ⟨{}, 0⟩

def nextId (w : Workspace) (e : Nat) : Int := w.counters[(w.env e).counter]?.getD 0

def newEnv (w : Workspace) (firstId : Int) : Nat × Workspace :=
  (w.envs.size,
    { w with counters := w.counters.push firstId, envs := w.envs.push ⟨{}, w.counters.size⟩ })

def clone (w : Workspace) (e : Nat) : Nat × Workspace :=
  (w.envs.size, { w with envs := w.envs.push (w.env e) })

/-- Opens a scope with the names of another and a counter of its own. -/
def fork (w : Workspace) (e : Nat) (firstId : Int) : Nat × Workspace :=
  (w.envs.size,
    { w with
      counters := w.counters.push firstId
      envs := w.envs.push ⟨(w.env e).bindings, w.counters.size⟩ })

def snapshot (w : Workspace) (e : Nat) : Bindings := (w.env e).bindings

def put (w : Workspace) (e : Nat) (name : String) (t : Ty) : Workspace :=
  { w with envs := w.envs.modify e fun env => { env with bindings := env.bindings.insert name t } }

def get (w : Workspace) (e : Nat) (name : String) : Except Fault (Option Ty) :=
  (w.env e).bindings.read? name

def supply (w : Workspace) (e : Nat) : Supply := ⟨w.store, w.nextId e⟩

def withSupply (w : Workspace) (e : Nat) (p : Supply) : Workspace :=
  { w with
    store := p.store
    counters := w.counters.modify (w.env e).counter fun _ => p.nextId }

def freshUnbound (w : Workspace) (e : Nat) (level : Int) : Ty × Workspace :=
  let (t, p) := (w.supply e).freshUnbound level
  (t, w.withSupply e p)

def freshGeneric (w : Workspace) (e : Nat) : Ty × Workspace :=
  let (t, p) := (w.supply e).freshGeneric
  (t, w.withSupply e p)

def newRecord (w : Workspace) (row : Row) : Ty × Workspace :=
  let (row, store) := w.store.newRow row
  (.record row, { w with store })

def newSignature (w : Workspace) (row : Row) : Ty × Workspace :=
  let (row, store) := w.store.newRow row
  (.signature row, { w with store })

def unify (w : Workspace) (a b : Ty) : Option UnifyError × Workspace :=
  let (store, error) := w.store.unify a b
  (error, { w with store })

def generalize (w : Workspace) (level : Int) (t : Ty) : Ty × Workspace :=
  let (t, store) := w.store.generalize level t
  (t, { w with store })

def instantiate (w : Workspace) (e : Nat) (level : Int) (t : Ty) : Except Fault Ty × Workspace :=
  let (r, p) := (w.supply e).instantiate level t
  (r, w.withSupply e p)

def infer (w : Workspace) (e : Nat) (level : Int) (expr : Expr) : Inferred × Workspace :=
  let r := expr.inferTop level (w.env e).bindings (w.supply e)
  (r, w.withSupply e r.supply)

def inferAll (w : Workspace) (scope : Option Nat) (level : Int) (cancelled : Bool)
    (exprs : List Expr) : BatchInferred × Workspace :=
  let (env, base) :=
    match scope with
    | some e => ((w.env e).bindings, w.nextId e)
    | none => ({}, 0)
  let r := LetPoly.inferAll level env base cancelled exprs w.store
  (r, { w with store := r.store })

end Workspace

end LetPoly
