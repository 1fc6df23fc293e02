import LetPoly.Expr.Decode
import LetPoly.Proofs.Outcome

namespace LetPoly

open Yaml (Node Decoded)

namespace Yaml.Node

def Tagged (n : Node) (key : String) (v : Node) : Prop :=
  ∃ pos k, n = .mapping pos [(k, v)] ∧ k.text = key

/-- A mapping has the value under the key, and no other value for it behind that one. -/
def Has (n : Node) (key : String) (v : Node) : Prop :=
  ∃ pos before k after, n = .mapping pos (before ++ (k, v) :: after) ∧ k.text = key ∧
    ∀ pair ∈ after, pair.1.text ≠ key

def Lacks (n : Node) (key : String) : Prop :=
  ∃ pos pairs, n = .mapping pos pairs ∧ ∀ pair ∈ pairs, pair.1.text ≠ key

def Lists (n : Node) (items : List Node) : Prop := ∃ pos, n = .sequence pos items

/-- A mapping has a sequence under the key, or has not the key and counts as if it had an empty one. -/
def MayList (n : Node) (key : String) (items : List Node) : Prop :=
  (n.Lacks key ∧ items = []) ∨ ∃ v, n.Has key v ∧ v.Lists items

end Yaml.Node

namespace Pattern

/-- One layer of a pattern, with `sub` for the patterns inside it. -/
inductive Form (sub : Node → Pattern → Prop) : Node → Pattern → Prop
  | discard {pos : Pos} {plain : Bool} {tag : String} :
    Form sub (.scalar pos "_" plain tag) (.discard pos)
  | var {pos : Pos} {text : String} {plain : Bool} {tag : String} (named : text ≠ "_") :
    Form sub (.scalar pos text plain tag) (.var pos text)
  | int {n v : Node} {i : Int} (key : n.Tagged "int" v) (value : v.int = .ok i) :
    Form sub n (.int n.pos i)
  | tuple {n v : Node} {items : List Node} {elems : List Pattern} (key : n.Tagged "tuple" v)
    (list : v.Lists items) (each : List.Forall₂ sub items elems) : Form sub n (.tuple n.pos elems)
  | constant {n : Node} {pos : Pos} {name : String} {plain : Bool} {tag : String}
    (key : n.Tagged "constructor" (.scalar pos name plain tag)) :
    Form sub n (.constructor n.pos name [])
  | constructor {n v m : Node} {name : String} {items : List Node} {args : List Pattern}
    (key : n.Tagged "constructor" v) (ofName : v.Has "name" m) (text : m.string = .ok name)
    (list : v.MayList "args" items) (each : List.Forall₂ sub items args) :
    Form sub n (.constructor n.pos name args)

inductive Denotes : Node → Pattern → Prop
  | intro {n : Node} {p : Pattern} (form : Form Denotes n p) : Denotes n p

end Pattern

inductive Param.Denotes : Node → Param → Prop
  | intro {n : Node} {name : String} (text : n.string = .ok name) : Param.Denotes n ⟨n.pos, name⟩

namespace Expr

inductive Binds : Node → Pattern → Prop
  | name {v m : Node} {name : String} (ofName : v.Has "name" m) (text : m.string = .ok name) :
    Binds v (.var m.pos name)
  | pattern {v m : Node} {p : Pattern} (unnamed : v.Lacks "name") (ofPattern : v.Has "pattern" m)
    (denotes : Pattern.Denotes m p) : Binds v p

section Layer

variable (sub : Node → Expr → Prop)

/-- Expressions one after the other, folded to the right. Each pair stands at the place of its
    first. -/
inductive Run : List Node → Expr → Prop
  | last {n : Node} {e : Expr} (one : sub n e) : Run [n] e
  | next {n : Node} {ns : List Node} {first body : Expr} (one : sub n first) (rest : Run ns body) :
    Run (n :: ns) (.seq first.pos first body)

/-- The fields of a record, folded to the right. The empty record behind them stands at the place of
    the whole. -/
inductive Fields : List Node → Pos → Expr → Prop
  | done {pos : Pos} : Fields [] pos (.recordNil pos)
  | next {pos : Pos} {n l v : Node} {ns : List Node} {label : String} {value tail : Expr}
    (ofLabel : n.Has "label" l) (text : l.string = .ok label) (ofValue : n.Has "value" v)
    (one : sub v value) (rest : Fields ns pos tail) :
    Fields (n :: ns) pos (.recordCons n.pos label value tail)

inductive Branch : Node → Clause → Prop
  | intro {items : List Node} {patterns : List Pattern} {body : Expr} {n p b : Node}
    (ofPatterns : n.Has "patterns" p) (list : p.Lists items)
    (each : List.Forall₂ Pattern.Denotes items patterns) (ofBody : n.Has "then" b)
    (one : sub b body) : Branch n (.mk n.pos patterns body)

/-- One layer of an expression, with `sub` for the expressions inside it. -/
inductive Form : Node → Expr → Prop
  | int {i : Int} {n v : Node} (key : n.Tagged "int" v) (value : v.int = .ok i) :
    Form n (.int n.pos i)
  | float {n v : Node} {x : Binary64} (key : n.Tagged "float" v) (value : v.float = .ok x) :
    Form n (.float n.pos x)
  | string {n v : Node} {s : String} (key : n.Tagged "string" v) (value : v.string = .ok s) :
    Form n (.string n.pos s)
  | atom {n v : Node} {s : String} (key : n.Tagged "atom" v) (value : v.string = .ok s) :
    Form n (.atom n.pos s)
  | var {n v : Node} {name : String} (key : n.Tagged "var" v) (value : v.string = .ok name) :
    Form n (.var n.pos name .unresolved .missing)
  | nil {n v : Node} (key : n.Tagged "nil" v) : Form n (.nil n.pos .missing)
  | constructor {n v : Node} {name : String} (key : n.Tagged "constructor" v)
    (value : v.string = .ok name) : Form n (.constructor n.pos name)
  | seq {n v : Node} {items : List Node} {e : Expr} (key : n.Tagged "seq" v) (list : v.Lists items)
    (run : Run sub items e) : Form n e
  | fn {n v a b : Node} {items : List Node} {params : List Param} {body : Expr}
    (key : n.Tagged "fn" v) (ofArgs : v.Has "args" a) (list : a.Lists items)
    (each : List.Forall₂ Param.Denotes items params) (ofBody : v.Has "body" b) (one : sub b body) :
    Form n (.fn n.pos params body .missing)
  | letIn {n v w b : Node} {pattern : Pattern} {value body : Expr} (key : n.Tagged "let" v)
    (binds : Binds v pattern) (ofValue : v.Has "value" w) (one : sub w value)
    (ofBody : v.Has "then" b) (other : sub b body) :
    Form n (.letIn n.pos pattern value body .missing)
  | call {n v f : Node} {items : List Node} {callee : Expr} {args : List Expr}
    (key : n.Tagged "call" v) (ofCallee : v.Has "fn" f) (one : sub f callee)
    (list : v.MayList "args" items) (each : List.Forall₂ sub items args) :
    Form n (.call n.pos callee args)
  | tuple {n v : Node} {items : List Node} {elems : List Expr} (key : n.Tagged "tuple" v)
    (list : v.Lists items) (each : List.Forall₂ sub items elems) : Form n (.tuple n.pos elems)
  | binop {n v o l r : Node} {op : String} {left right : Expr} (key : n.Tagged "binop" v)
    (ofOp : v.Has "op" o) (text : o.string = .ok op) (ofLeft : v.Has "left" l) (one : sub l left)
    (ofRight : v.Has "right" r) (other : sub r right) : Form n (.binop n.pos op left right)
  | cons {n v h t : Node} {head tail : Expr} (key : n.Tagged "cons" v) (ofHead : v.Has "head" h)
    (one : sub h head) (ofTail : v.Has "tail" t) (other : sub t tail) :
    Form n (.cons n.pos head tail)
  | caseOf {n v s c : Node} {items branches : List Node} {subjects : List Expr}
    {clauses : List Clause} (key : n.Tagged "case" v) (ofSubjects : v.Has "subjects" s)
    (list : s.Lists items) (each : List.Forall₂ sub items subjects) (ofClauses : v.Has "clauses" c)
    (list' : c.Lists branches) (each' : List.Forall₂ (Branch sub) branches clauses) :
    Form n (.caseOf n.pos subjects clauses)
  | record {n v : Node} {items : List Node} {e : Expr} (key : n.Tagged "record" v)
    (list : v.Lists items) (fields : Fields sub items n.pos e) : Form n e
  | select {n v r l : Node} {label : String} {record : Expr} (key : n.Tagged "select" v)
    (ofRecord : v.Has "record" r) (one : sub r record) (ofLabel : v.Has "label" l)
    (text : l.string = .ok label) : Form n (.select n.pos record label)
  | member {n v m l : Node} {home label : String} (key : n.Tagged "module_select" v)
    (ofHome : v.Has "module" m) (text : m.string = .ok home) (ofLabel : v.Has "label" l)
    (text' : l.string = .ok label) : Form n (.member n.pos home label)

end Layer

inductive Denotes : Node → Expr → Prop
  | intro {n : Node} {e : Expr} (form : Form Denotes n e) : Denotes n e

end Expr

end LetPoly
