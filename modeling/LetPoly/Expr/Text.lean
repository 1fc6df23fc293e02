import LetPoly.Binary64.Shortest
import LetPoly.Expr.Basic
import LetPoly.Text.Quoted

namespace LetPoly.Expr

def parens (needed : Bool) (text : String) : String :=
  if needed then "(" ++ text ++ ")" else text

mutual

/-- The text of an expression. Where it has to be `simple`, a form that could run on into what
    follows is put in parentheses. -/
def textIn (simple : Bool) : Expr → String
  | .missing => ""
  | .int _ value => toString value
  | .float _ value => value.toLiteral
  | .string _ value => Text.quote value
  | .atom _ value => "'" ++ value ++ "'"
  | .seq _ first body => parens simple (first.textIn false ++ " " ++ body.textIn false)
  | .var _ name _ _ => name
  | .fn _ params body _ =>
    "fn(" ++ ", ".intercalate (params.map Param.name) ++ ") \x7b " ++ body.textIn false ++ " \x7d"
  | .letIn _ pattern value body _ =>
    parens simple (pattern.toText ++ " = " ++ value.textIn true ++ " " ++ body.textIn false)
  | .nil _ _ => "[]"
  | .call _ callee args => callee.textIn true ++ "(" ++ ", ".intercalate (textOfList args) ++ ")"
  | .binop _ name left right =>
    parens simple (left.textIn true ++ " " ++ name ++ " " ++ right.textIn true)
  | .tuple _ elems => "\x7b" ++ ", ".intercalate (textOfList elems) ++ "\x7d"
  | .caseOf _ subjects clauses =>
    "case " ++ ", ".intercalate (textOfList subjects) ++ " \x7b" ++ textOfClauses clauses ++ " \x7d"
  | .cons _ head tail => "[" ++ head.textIn false ++ " | " ++ tail.textIn false ++ "]"
  | .recordNil _ => "\x7b\x7d"
  | .recordCons _ label value (.recordNil _) =>
    "\x7b" ++ label ++ " = " ++ value.textIn false ++ "\x7d"
  | .recordCons _ label value tail =>
    "\x7b" ++ label ++ " = " ++ value.textIn false ++ " | " ++ tail.textIn false ++ "\x7d"
  | .constructor _ name => name
  | .select _ record label => record.textIn true ++ "." ++ label
  | .member _ home label => home ++ ":" ++ label

def textOfList : List Expr → List String
  | [] => []
  | e :: es => e.textIn false :: textOfList es

def textOfClauses : List Clause → String
  | [] => ""
  | .mk _ patterns body :: clauses =>
    " | " ++ ", ".intercalate (patterns.map Pattern.toText) ++ " -> " ++ body.textIn false
      ++ textOfClauses clauses

end

def toText (e : Expr) : String := e.textIn false

end LetPoly.Expr
