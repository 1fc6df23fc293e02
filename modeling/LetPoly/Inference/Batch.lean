import LetPoly.Inference.Context

namespace LetPoly

def batchIdRange : Int := 16777216

inductive BatchError
  | openBindings (names : List String)
  | cancelled
  | failed (index : Nat) (error : InferError)
  | exhausted (index : Nat)
  | fault (f : Fault)

def BatchError.message? : BatchError → Option String
  | .openBindings names =>
    some ("hindley: prelude bindings contain unbound type-variables: " ++ ", ".intercalate names)
  | .cancelled => some "context canceled"
  | .failed index error => some (s!"expression {index}: " ++ error.message)
  | .exhausted index => some s!"hindley: expression {index} exhausted its type-variable id range"
  | .fault f => f.message?

/-- The names whose types hold an unbound variable, which every expression would share. -/
def openNames (s : Store) (env : Bindings) : List String :=
  (env.entries.filter fun (_, t) => !(s.unboundIds t).isEmpty).map Prod.fst

structure BatchInferred where
  result : Except BatchError (List Expr)
  store : Store
  log : List LogRecord := []

/-- Infers the expressions from the one at `index` on, each with numbers of its own, and stops at
    the first that fails. -/
def inferFrom (level : Int) (env : Bindings) (base : Int) : Nat → List Expr → Store → BatchInferred
  | _, [], s => { result := .ok [], store := s }
  | index, e :: es, s =>
    let firstId := wrap64 (base + index * batchIdRange)
    let head := e.inferTop level env ⟨s, firstId⟩
    match head.result with
    | .error (.failed error _) =>
      { result := .error (.failed index error), store := head.supply.store, log := head.log }
    | .error (.fault f) =>
      { result := .error (.fault f), store := head.supply.store, log := head.log }
    | .ok typed =>
      if wrap64 (firstId + batchIdRange) < head.supply.nextId then
        { result := .error (.exhausted index), store := head.supply.store, log := head.log }
      else
        let tail := inferFrom level env base (index + 1) es head.supply.store
        { tail with result := tail.result.map (typed :: ·), log := head.log ++ tail.log }

def inferAll (level : Int) (env : Bindings) (base : Int) (cancelled : Bool) (es : List Expr)
    (s : Store) : BatchInferred :=
  let openOnes := openNames s env
  if env.hasMissing then { result := .error (.fault .missingType), store := s }
  else if !openOnes.isEmpty then { result := .error (.openBindings openOnes), store := s }
  else if cancelled && !es.isEmpty then { result := .error .cancelled, store := s }
  else inferFrom level env base 0 es s

end LetPoly
