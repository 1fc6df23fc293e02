import LetPoly.Layout.Basic
import LetPoly.Store.Basic

namespace LetPoly

structure VarNames where
  seen : List Int := []
deriving Repr

/-- The letters `a` to `z`, then the same letters with 1, 2 and so on behind them. -/
def varName (i : Nat) : String :=
  let letter := String.singleton (Char.ofNat ('a'.toNat + i % 26))
  if i < 26 then letter else letter ++ toString (i / 26)

/-- The name of a variable. One that has not been seen takes the next free name. -/
def VarNames.name (names : VarNames) (id : Int) : String × VarNames :=
  match names.seen.idxOf? id with
  | some i => (varName i, names)
  | none => (varName names.seen.length, ⟨names.seen ++ [id]⟩)

open Layout

def invalidText : String := "<INVALID-TYPE>"

def argumentsDoc : List Doc → Doc
  | [] => .text "()"
  | docs =>
    .group <| .concat
      [.text "(",
       .nest 2 (.concat [.cut "" "", .join docs (.cut "," ", ")]),
       .cut "," "",
       .text ")"]

namespace Ty

mutual

def docM (onCell : Nat → StateM VarNames Doc) : Ty → StateM VarNames Doc
  | .missing _ => pure (.text invalidText)
  | .cell ref => onCell ref
  | .const decl => pure (.text decl.name)
  | .app decl args => do
    let args ← docListM onCell args
    return .concat [.text decl.name, argumentsDoc args]
  | .fn params result => do
    let params ← docListM onCell params
    let result ← result.docM onCell
    return .concat [.text "fn", argumentsDoc params, .text " -> ", result]
  | .tuple _ => pure (.text "<unsupported Tuple>")
  | .record _ => pure (.text "<unsupported Record>")
  | .signature _ => pure (.text "<unsupported Module>")

def docListM (onCell : Nat → StateM VarNames Doc) : List Ty → StateM VarNames (List Doc)
  | [] => pure []
  | t :: ts => do
    let doc ← t.docM onCell
    return doc :: (← docListM onCell ts)

end

end Ty

namespace Store

def typeDocWithin (s : Store) : Nat → Ty → StateM VarNames Doc
  | 0, _ => pure (.text invalidText)
  | budget + 1, t => t.docM fun ref => do
    match s.state ref with
    | .linked target => s.typeDocWithin budget target
    | _ =>
      let (name, names) := (← get).name (s.cell ref).id
      set names
      return .text name

def typeDoc (s : Store) (t : Ty) : StateM VarNames Doc := s.typeDocWithin s.depth t

def defaultWidth : Int := 80

def showType (s : Store) (width : Int) (t : Ty) (names : VarNames) : String × VarNames :=
  let (doc, names) := s.typeDoc t names
  (doc.format width, names)

def formatType (s : Store) (width : Int) (t : Ty) : String :=
  (s.showType width t {}).1

def typeString (s : Store) (t : Ty) : String := s.formatType defaultWidth t

end Store

end LetPoly
