import LetPoly.Expr.Basic
import LetPoly.Yaml.Decode

namespace LetPoly

open Yaml (Node Decoded)

namespace Pattern

def ofForm (sub : Node → Decoded Pattern) (n : Node) (form : String) (v : Node) : Decoded Pattern :=
  match form with
  | "int" => do return .int n.pos (← v.int)
  | "tuple" => do return .tuple n.pos (← (← v.items).mapM sub)
  | "constructor" =>
    match v with
    | .scalar _ name _ _ => .ok (.constructor n.pos name [])
    | _ => do
      let pairs ← v.pairs
      let name ← (← v.field pairs "name").string
      match Node.lookup? "args" pairs with
      | none => return .constructor n.pos name []
      | some args => return .constructor n.pos name (← (← args.items).mapM sub)
  | _ => n.fail (.unknownPattern form)

def ofNodeWithin : Nat → Node → Decoded Pattern
  | 0, n => n.fail .notSingleKey
  | fuel + 1, n =>
    match n with
    | .scalar pos text _ _ => .ok (if text = "_" then .discard pos else .var pos text)
    | _ => do
      let (form, v) ← n.single
      ofForm (ofNodeWithin fuel) n form v

def ofNode (n : Node) : Decoded Pattern := ofNodeWithin n.depth n

end Pattern

def Param.ofNode (n : Node) : Decoded Param := do return ⟨n.pos, ← n.string⟩

namespace Expr

def chain (e : Expr) : List Expr → Expr
  | [] => e
  | next :: rest => .seq e.pos e (chain next rest)

def binder (v : Node) (pairs : List (Node × Node)) : Decoded Pattern :=
  match Node.lookup? "name" pairs, Node.lookup? "pattern" pairs with
  | some name, _ => do return .var name.pos (← name.string)
  | none, some pattern => Pattern.ofNode pattern
  | none, none => v.fail .missingBinder

def clauseOf (sub : Node → Decoded Expr) (n : Node) : Decoded Clause := do
  let pairs ← n.pairs
  let patterns ← n.field pairs "patterns"
  let body ← n.field pairs "then"
  let patterns ← (← patterns.items).mapM Pattern.ofNode
  return .mk n.pos patterns (← sub body)

def recordField (sub : Node → Decoded Expr) (n : Node) (tail : Expr) : Decoded Expr := do
  let pairs ← n.pairs
  let label ← n.field pairs "label"
  let value ← n.field pairs "value"
  let label ← label.string
  return .recordCons n.pos label (← sub value) tail

def ofForm (sub : Node → Decoded Expr) (n : Node) (form : String) (v : Node) : Decoded Expr :=
  match form with
  | "int" => do return .int n.pos (← v.int)
  | "float" => do return .float n.pos (← v.float)
  | "string" => do return .string n.pos (← v.string)
  | "atom" => do return .atom n.pos (← v.string)
  | "var" => do return .var n.pos (← v.string) .unresolved .missing
  | "nil" => .ok (.nil n.pos .missing)
  | "constructor" => do return .constructor n.pos (← v.string)
  | "seq" => do
    match ← v.items with
    | [] => v.fail .emptySequence
    | first :: rest =>
      let first ← sub first
      return first.chain (← rest.mapM sub)
  | "fn" => do
    let pairs ← v.pairs
    let args ← v.field pairs "args"
    let body ← v.field pairs "body"
    let params ← (← args.items).mapM Param.ofNode
    return .fn n.pos params (← sub body) .missing
  | "let" => do
    let pairs ← v.pairs
    let value ← v.field pairs "value"
    let body ← v.field pairs "then"
    let pattern ← binder v pairs
    let value ← sub value
    return .letIn n.pos pattern value (← sub body) .missing
  | "call" => do
    let pairs ← v.pairs
    let callee ← sub (← v.field pairs "fn")
    match Node.lookup? "args" pairs with
    | none => return .call n.pos callee []
    | some args => return .call n.pos callee (← (← args.items).mapM sub)
  | "tuple" => do return .tuple n.pos (← (← v.items).mapM sub)
  | "binop" => do
    let pairs ← v.pairs
    let op ← v.field pairs "op"
    let left ← v.field pairs "left"
    let right ← v.field pairs "right"
    let op ← op.string
    let left ← sub left
    return .binop n.pos op left (← sub right)
  | "cons" => do
    let pairs ← v.pairs
    let head ← v.field pairs "head"
    let tail ← v.field pairs "tail"
    let head ← sub head
    return .cons n.pos head (← sub tail)
  | "case" => do
    let pairs ← v.pairs
    let subjects ← v.field pairs "subjects"
    let clauses ← v.field pairs "clauses"
    let subjects ← subjects.items
    let clauses ← clauses.items
    let subjects ← subjects.mapM sub
    return .caseOf n.pos subjects (← clauses.mapM (clauseOf sub))
  | "record" => do (← v.items).foldrM (recordField sub) (.recordNil n.pos)
  | "select" => do
    let pairs ← v.pairs
    let record ← v.field pairs "record"
    let label ← v.field pairs "label"
    let label ← label.string
    return .select n.pos (← sub record) label
  | "module_select" => do
    let pairs ← v.pairs
    let home ← v.field pairs "module"
    let label ← v.field pairs "label"
    let home ← home.string
    return .member n.pos home (← label.string)
  | _ => n.fail (.unknownExpr form)

def ofNodeWithin : Nat → Node → Decoded Expr
  | 0, n => n.fail .notSingleKey
  | fuel + 1, n => do
    let (form, v) ← n.single
    ofForm (ofNodeWithin fuel) n form v

def ofNode (n : Node) : Decoded Expr := ofNodeWithin n.depth n

end Expr

end LetPoly
