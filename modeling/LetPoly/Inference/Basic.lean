import LetPoly.Inference.Error
import LetPoly.Scheme

namespace LetPoly

inductive Stop
  | failed (error : InferError) (invalid : Option Expr)
  | fault (f : Fault)

/-- Draws a variable for each parameter and binds it. Of two parameters with one name the second is
    visible. -/
def bindParams (level : Int) : List Param → Bindings → Supply → List Ty × Bindings × Supply
  | [], env, p => ([], env, p)
  | param :: params, env, p =>
    let (t, p) := p.freshUnbound level
    let (ts, env, p) := bindParams level params (env.insert param.name t) p
    (t :: ts, env, p)

namespace Expr

def unsupported (e : Expr) : Stop := .failed (.notImplemented e.pos e.form) (some e)

def unsupportedPattern (e : Expr) (pattern : Pattern) : Stop :=
  let form :=
    match pattern.form? with
    | some form => "Let with " ++ form ++ " pattern"
    | none => "Let with pattern"
  .failed (.notImplemented e.pos form) (some e)

/-- Gives every part of an expression its type. The value of a binding is inferred one level
    deeper, and the variables left at that level are made generic. -/
def infer : Expr → Int → Bindings → Supply → Except Stop Expr × Supply
  | .missing, _, _, p => (.error (.failed .missingSubexpression none), p)
  | .int pos value, _, _, p => (.ok (.int pos value), p)
  | .float pos value, _, _, p => (.ok (.float pos value), p)
  | .string pos value, _, _, p => (.ok (.string pos value), p)
  | .atom pos value, _, _, p => (.ok (.atom pos value), p)
  | .seq pos first body, level, env, p =>
    match first.infer level env p with
    | (.error e, p) => (.error e, p)
    | (.ok first, p) =>
      match body.infer level env p with
      | (.error e, p) => (.error e, p)
      | (.ok body, p) => (.ok (.seq pos first body), p)
  | .var pos name scope type, level, env, p =>
    match env.get? name with
    | none =>
      (.error (.failed (.unknownVariable pos name env) (some (.var pos name scope type))), p)
    | some scheme =>
      match p.instantiate level scheme with
      | (.error f, p) => (.error (.fault f), p)
      | (.ok type, p) => (.ok (.var pos name .bound type), p)
  | .fn pos params body _, level, env, p =>
    let (types, inner, p) := bindParams level params env p
    match body.infer level inner p with
    | (.error e, p) => (.error e, p)
    | (.ok body, p) =>
      match body.typeIn p.store with
      | .error f => (.error (.fault f), p)
      | .ok result => (.ok (.fn pos params body (.fn types result)), p)
  | .letIn pos (.var namePos name) value body _, level, env, p =>
    match value.infer (wrap64 (level + 1)) env p with
    | (.error e, p) => (.error e, p)
    | (.ok value, p) =>
      match value.typeIn p.store with
      | .error f => (.error (.fault f), p)
      | .ok type =>
        let (bound, store) := p.store.generalize level type
        match body.infer level (env.insert name bound) { p with store } with
        | (.error e, p) => (.error e, p)
        | (.ok body, p) => (.ok (.letIn pos (.var namePos name) value body bound), p)
  | .letIn pos pattern value body bound, _, _, p =>
    (.error (unsupportedPattern (.letIn pos pattern value body bound) pattern), p)
  | .nil pos _, level, _, p =>
    let (elem, p) := p.freshUnbound level
    (.ok (.nil pos (.list elem)), p)
  | e, _, _, p => (.error e.unsupported, p)

end Expr

end LetPoly
