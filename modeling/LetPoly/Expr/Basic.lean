import LetPoly.Binary64.Basic
import LetPoly.Expr.Pattern
import LetPoly.Store.Basic

namespace LetPoly

inductive Scope
  | unresolved
  | bound
deriving DecidableEq, Repr

def Scope.toText : Scope → String
  | .unresolved => "unresolved"
  | .bound => "local"

structure Param where
  pos : Pos := {}
  name : String
deriving DecidableEq, Repr

mutual

/-- An expression. References, functions, bindings and empty lists carry the types that inference
    gives them, `Ty.missing` before it. `missing` stands where no expression was given. -/
inductive Expr
  | missing
  | int (pos : Pos) (value : Int)
  | float (pos : Pos) (value : Binary64)
  | string (pos : Pos) (value : String)
  | atom (pos : Pos) (value : String)
  | seq (pos : Pos) (first body : Expr)
  | var (pos : Pos) (name : String) (scope : Scope) (type : Ty)
  | fn (pos : Pos) (params : List Param) (body : Expr) (type : Ty)
  | letIn (pos : Pos) (pattern : Pattern) (value body : Expr) (bound : Ty)
  | nil (pos : Pos) (type : Ty)
  | call (pos : Pos) (callee : Expr) (args : List Expr)
  | binop (pos : Pos) (name : String) (left right : Expr)
  | tuple (pos : Pos) (elems : List Expr)
  | caseOf (pos : Pos) (subjects : List Expr) (clauses : List Clause)
  | cons (pos : Pos) (head tail : Expr)
  | recordNil (pos : Pos)
  | recordCons (pos : Pos) (label : String) (value tail : Expr)
  | constructor (pos : Pos) (name : String)
  | select (pos : Pos) (record : Expr) (label : String)
  | member (pos : Pos) (home label : String)

inductive Clause
  | mk (pos : Pos) (patterns : List Pattern) (body : Expr)

end

deriving instance Repr for Expr, Clause

instance : Inhabited Expr := ⟨.missing⟩

namespace Expr

def isMissing : Expr → Bool
  | .missing => true
  | _ => false

def pos : Expr → Pos
  | .missing => {}
  | .int pos _ | .float pos _ | .string pos _ | .atom pos _ => pos
  | .seq pos _ _ | .var pos _ _ _ | .fn pos _ _ _ | .letIn pos _ _ _ _ | .nil pos _ => pos
  | .call pos _ _ | .binop pos _ _ _ | .tuple pos _ | .caseOf pos _ _ | .cons pos _ _ => pos
  | .recordNil pos | .recordCons pos _ _ _ | .constructor pos _ => pos
  | .select pos _ _ | .member pos _ _ => pos

def form : Expr → String
  | .missing => ""
  | .int _ _ => "Int"
  | .float _ _ => "Float"
  | .string _ _ => "String"
  | .atom _ _ => "Atom"
  | .seq _ _ _ => "Seq"
  | .var _ _ _ _ => "Var"
  | .fn _ _ _ _ => "Fun"
  | .letIn _ _ _ _ _ => "Let"
  | .nil _ _ => "Nil"
  | .call _ _ _ => "Call"
  | .binop _ _ _ _ => "BinOp"
  | .tuple _ _ => "Tuple"
  | .caseOf _ _ _ => "Case"
  | .cons _ _ _ => "Cons"
  | .recordNil _ => "RecordNil"
  | .recordCons _ _ _ _ => "RecordCons"
  | .constructor _ _ => "Constructor"
  | .select _ _ _ => "RecordSelect"
  | .member _ _ _ => "ModuleSelect"

/-- The type of an expression, as far as inference has given it one. A sequence and a binding have
    the type of what they end in. -/
def typeIn (s : Store) : Expr → Except Fault Ty
  | .missing => .error .missingExpr
  | .int _ _ => .ok .int
  | .float _ _ => .ok .float
  | .string _ _ => .ok .string
  | .atom _ _ => .ok .atom
  | .seq _ _ body => body.typeIn s
  | .var _ _ _ type => .ok (s.head type)
  | .fn _ _ _ type => .ok type
  | .letIn _ _ _ body _ => body.typeIn s
  | .nil _ type => .ok (s.head type)
  | _ => .ok .missing

def paramTypeIn (s : Store) (e : Expr) (index : Int) : Except Fault Ty :=
  match e with
  | .fn _ _ _ (.fn params _) =>
    if index < 0 then .error .noSuchPart
    else
      match params[index.toNat]? with
      | some t => .ok (s.head t)
      | none => .error .noSuchPart
  | _ => .error .noSuchPart

def resultTypeIn (s : Store) : Expr → Except Fault Ty
  | .fn _ _ _ (.fn _ result) => .ok (s.head result)
  | _ => .error .noSuchPart

mutual

def nodes : Expr → List Expr
  | .missing => []
  | .seq pos first body => .seq pos first body :: (first.nodes ++ body.nodes)
  | .fn pos params body type => .fn pos params body type :: body.nodes
  | .letIn pos pattern value body bound =>
    .letIn pos pattern value body bound :: (value.nodes ++ body.nodes)
  | .call pos callee args => .call pos callee args :: (callee.nodes ++ nodesOfList args)
  | .binop pos name left right => .binop pos name left right :: (left.nodes ++ right.nodes)
  | .tuple pos elems => .tuple pos elems :: nodesOfList elems
  | .caseOf pos subjects clauses =>
    .caseOf pos subjects clauses :: (nodesOfList subjects ++ nodesOfClauses clauses)
  | .cons pos head tail => .cons pos head tail :: (head.nodes ++ tail.nodes)
  | .recordCons pos label value tail =>
    .recordCons pos label value tail :: (value.nodes ++ tail.nodes)
  | .select pos record label => .select pos record label :: record.nodes
  | e => [e]

def nodesOfList : List Expr → List Expr
  | [] => []
  | e :: es => e.nodes ++ nodesOfList es

def nodesOfClauses : List Clause → List Expr
  | [] => []
  | .mk _ _ body :: clauses => body.nodes ++ nodesOfClauses clauses

end

mutual

def erase : Expr → Expr
  | .missing => .missing
  | .int pos value => .int pos value
  | .float pos value => .float pos value
  | .string pos value => .string pos value
  | .atom pos value => .atom pos value
  | .seq pos first body => .seq pos first.erase body.erase
  | .var pos name _ _ => .var pos name .unresolved .missing
  | .fn pos params body _ => .fn pos params body.erase .missing
  | .letIn pos pattern value body _ => .letIn pos pattern value.erase body.erase .missing
  | .nil pos _ => .nil pos .missing
  | .call pos callee args => .call pos callee.erase (eraseList args)
  | .binop pos name left right => .binop pos name left.erase right.erase
  | .tuple pos elems => .tuple pos (eraseList elems)
  | .caseOf pos subjects clauses => .caseOf pos (eraseList subjects) (eraseClauses clauses)
  | .cons pos head tail => .cons pos head.erase tail.erase
  | .recordNil pos => .recordNil pos
  | .recordCons pos label value tail => .recordCons pos label value.erase tail.erase
  | .constructor pos name => .constructor pos name
  | .select pos record label => .select pos record.erase label
  | .member pos home label => .member pos home label

def eraseList : List Expr → List Expr
  | [] => []
  | e :: es => e.erase :: eraseList es

def eraseClauses : List Clause → List Clause
  | [] => []
  | .mk pos patterns body :: clauses => .mk pos patterns body.erase :: eraseClauses clauses

end

end Expr

end LetPoly
