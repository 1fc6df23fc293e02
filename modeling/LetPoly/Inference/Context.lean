import LetPoly.Inference.Basic
import LetPoly.Inference.Log

namespace LetPoly

structure Context where
  error : Option InferError := none
  invalid : Option Expr := none

structure Inferred where
  result : Except Stop Expr
  supply : Supply
  context : Context := {}
  log : List LogRecord := []

def Expr.inferTop (e : Expr) (level : Int) (env : Bindings) (p : Supply) : Inferred :=
  if e.isMissing then
    let error := InferError.missingExpression
    { result := .error (.failed error none), supply := p, context := { error := some error } }
  else
    match e.infer level env p with
    | (.ok typed, p) =>
      let type := match typed.typeIn p.store with
        | .ok t => p.store.typeString t
        | .error _ => invalidText
      { result := .ok typed, supply := p, log := [.completed e.form type p.nextId] }
    | (.error (.failed error invalid), p) =>
      { result := .error (.failed error invalid), supply := p
        context := { error := some error, invalid }
        log := [.failed e.form error.message] }
    | (.error (.fault f), p) => { result := .error (.fault f), supply := p }

def Expr.inferNowhere (e : Expr) (p : Supply) : Inferred :=
  let error := if e.isMissing then InferError.missingExpression else .missingEnvironment
  { result := .error (.failed error none), supply := p, context := { error := some error } }

end LetPoly
