import LetPoly.Proofs.Printing.Names
import LetPoly.Proofs.Shown
import Mathlib.Data.List.ReduceOption

namespace LetPoly

open Layout

namespace Head

def bare : Head → Head
  | .const decl => .const { name := decl.name }
  | .app decl => .app { name := decl.name }
  | .tuple => .tuple
  | .fn => .fn
  | .record _ => .record []
  | .signature _ => .signature []

def opens : Head → Bool
  | .app _ | .fn => true
  | .const _ | .tuple | .record _ | .signature _ => false

def doc : Head → List Doc → Doc
  | .const decl, _ => .text decl.name
  | .app decl, docs => .concat [.text decl.name, argumentsDoc docs]
  | .fn, docs =>
    .concat [.text "fn", argumentsDoc docs.dropLast, .text " -> ", docs.getLast?.getD .nil]
  | .tuple, _ => .text "<unsupported Tuple>"
  | .record _, _ => .text "<unsupported Record>"
  | .signature _, _ => .text "<unsupported Module>"

end Head

namespace Term

variable {α β : Type} {τ : Term (Option Int)} {names : VarNames} {f : Int → Int}

def bare (t : Term α) : Term α :=
  t.fold .atom fun head args => .node head.bare (if head.opens then args else [])

def doc (t : Term (Option String)) : Doc :=
  t.fold (fun name => .text (name.getD invalidText)) Head.doc

@[simp] theorem bare_atom (a : α) : (Term.atom a).bare = .atom a := fold_atom _ _ a

theorem bare_node (head : Head) (args : List (Term α)) :
    (Term.node head args).bare = .node head.bare (if head.opens then args.map bare else []) :=
  fold_node _ _ head args

@[simp] theorem doc_atom (name : Option String) :
    (Term.atom name).doc = .text (name.getD invalidText) := fold_atom _ _ name

@[simp] theorem doc_node (head : Head) (args : List (Term (Option String))) :
    (Term.node head args).doc = head.doc (args.map doc) := fold_node _ _ head args

theorem bare_map (f : α → β) (t : Term α) : (t.map f).bare = t.bare.map f := by
  induction t with
  | atom a => simp
  | node head args ih =>
    simp only [map_node, bare_node, List.map_map]
    cases head.opens with
    | true => simpa using ih
    | false => rfl

def ids (τ : Term (Option Int)) : List Int := τ.atoms.reduceOption

def renumber (f : Int → Int) (τ : Term (Option Int)) : Term (Option Int) := τ.map (Option.map f)

def docIn (names : VarNames) (τ : Term (Option Int)) : Doc := (τ.map (Option.map names.nameOf)).doc

theorem mem_ids {id : Int} : id ∈ τ.ids ↔ some id ∈ τ.atoms := List.reduceOption_mem_iff

@[simp] theorem ids_var (id : Int) : (Term.atom (some id)).ids = [id] := by simp [ids]

@[simp] theorem ids_missing : (Term.atom (none : Option Int)).ids = [] := by simp [ids]

@[simp] theorem ids_node (head : Head) (args : List (Term (Option Int))) :
    (Term.node head args).ids = args.flatMap ids := by
  simp only [ids, atoms_node, List.reduceOption, List.filterMap_flatMap]
  rfl

theorem ids_renumber (f : Int → Int) (τ : Term (Option Int)) :
    (τ.renumber f).ids = τ.ids.map f := by
  rw [ids, renumber, atoms_map, List.reduceOption_map, ids]

theorem docIn_node (head : Head) (args : List (Term (Option Int))) :
    (Term.node head args).docIn names = head.doc (args.map (docIn names)) := by
  simp only [docIn, map_node, doc_node, List.map_map]
  rfl

theorem docIn_congr {names names' : VarNames}
    (same : ∀ id ∈ τ.ids, names'.nameOf id = names.nameOf id) :
    τ.docIn names' = τ.docIn names := by
  refine congrArg doc (map_congr fun a atom => ?_)
  cases a with
  | none => rfl
  | some id => exact congrArg some (same id (mem_ids.mpr atom))

theorem docIn_renumber
    (inj : ∀ id ∈ τ.ids, ∀ other ∈ names.seen, f other = f id → other = id) :
    (τ.renumber f).docIn (names.renumber f) = τ.docIn names := by
  rw [docIn, docIn, renumber, map_map]
  refine congrArg doc (map_congr fun a atom => ?_)
  cases a with
  | none => rfl
  | some id => exact congrArg some (VarNames.nameOf_renumber (inj id (mem_ids.mpr atom)))

end Term

namespace Store

variable {s : Store} {t target : Ty} {ref : Nat}

/-- The type as far as it is printed: its variables are numbers, and what is known of a declared
    type is its name. -/
def outline (s : Store) (t : Ty) : Term (Option Int) := ((s.shown t).map Shown.id?).bare

theorem outline_missing (mark : Nat) : s.outline (.missing mark) = .atom none := by
  simp [outline, Shown.id?]

theorem outline_plain (plain : ∀ target, s.state ref ≠ .linked target) :
    s.outline (.cell ref) = .atom (some (s.cell ref).id) := by
  cases state : s.state ref with
  | linked target => exact absurd state (plain target)
  | unbound level => simp [outline, shown_unbound state, Shown.id?]
  | generic => simp [outline, shown_generic state, Shown.id?]

theorem outline_linked (finite : s.Finite (.cell ref)) (linked : s.state ref = .linked target) :
    s.outline (.cell ref) = s.outline target := by
  rw [outline, shown_linked finite linked, outline]

theorem outline_node {head : Head} {parts : List Ty} (top : t.node? = some (head, parts)) :
    s.outline t = .node head.bare (if head.opens then parts.map s.outline else []) := by
  simp only [outline, shown_node top, Term.map_node, Term.bare_node, List.map_map]
  rfl

end Store

/-- The program names the variables of an outline in the order they are met, and makes its layout
    with the names they have then. -/
def Prints (x : StateM VarNames Doc) (τ : Term (Option Int)) : Prop :=
  ∀ names, x names = (τ.docIn (names.see τ.ids), names.see τ.ids)

theorem Term.docIn_see {τ : Term (Option Int)} {names : VarNames}
    (named : ∀ id ∈ τ.ids, id ∈ names.seen) (more : List Int) :
    τ.docIn (names.see more) = τ.docIn names :=
  Term.docIn_congr fun id member => VarNames.nameOf_see (named id member) more

theorem docListM_cons (f : Nat → StateM VarNames Doc) (t : Ty) (ts : List Ty) (names : VarNames) :
    Ty.docListM f (t :: ts) names =
      ((t.docM f names).1 :: (Ty.docListM f ts (t.docM f names).2).1,
        (Ty.docListM f ts (t.docM f names).2).2) := rfl

theorem docListM_prints {f : Nat → StateM VarNames Doc} {outline : Ty → Term (Option Int)}
    {ts : List Ty} (each : ∀ t ∈ ts, Prints (t.docM f) (outline t)) (names : VarNames) :
    Ty.docListM f ts names =
      ((ts.map outline).map (Term.docIn (names.see ((ts.map outline).flatMap Term.ids))),
        names.see ((ts.map outline).flatMap Term.ids)) := by
  induction ts generalizing names with
  | nil => rfl
  | cons t ts ih =>
    obtain ⟨first, rest⟩ := List.forall_mem_cons.mp each
    -- the parts behind name more variables, but rename none
    have stays : ∀ more, (outline t).docIn ((names.see (outline t).ids).see more) =
        (outline t).docIn (names.see (outline t).ids) := by
      intro more
      apply Term.docIn_see
      intro id member
      exact VarNames.mem_seen_see.mpr (.inr member)
    rw [docListM_cons, first, ih rest]
    simp only [List.map_cons, List.flatMap_cons, VarNames.see_append, stays]

theorem docListM_concat (f : Nat → StateM VarNames Doc) (ts : List Ty) (t : Ty) (names : VarNames) :
    Ty.docListM f (ts ++ [t]) names =
      ((Ty.docListM f ts names).1 ++ [(t.docM f (Ty.docListM f ts names).2).1],
        (t.docM f (Ty.docListM f ts names).2).2) := by
  induction ts generalizing names with
  | nil => rfl
  | cons u us ih =>
    rw [List.cons_append, docListM_cons, docListM_cons, ih]
    rfl

namespace Store

variable {s : Store} {t target : Ty} {ref : Nat}

def cellDoc (s : Store) (ref : Nat) : StateM VarNames Doc := do
  match s.state ref with
  | .linked target => s.typeDocWithin s.size target
  | _ =>
    let (name, names) := (← get).name (s.cell ref).id
    set names
    return .text name

theorem typeDoc_eq_docM (t : Ty) : s.typeDoc t = t.docM s.cellDoc := rfl

theorem typeDoc_linked (finite : s.Finite (.cell ref)) (linked : s.state ref = .linked target) :
    s.typeDoc (.cell ref) = s.typeDoc target := by
  obtain ⟨n, count, below⟩ := finite.shallow.link Ty.cell_mem_leaves linked
  calc s.typeDoc (.cell ref)
    _ = s.typeDocWithin s.size target := by
      simp only [typeDoc, depth, typeDocWithin, Ty.docM, linked]
    _ = s.typeDoc target := typeDocWithin_eq below (by omega) (by rw [depth]; omega)

theorem typeDoc_prints (finite : s.Finite t) : Prints (s.typeDoc t) (s.outline t) := by
  induction finite using Finite.induction with
  | missing mark =>
    rw [outline_missing]
    intro names
    simp only [Term.ids_missing, VarNames.see_nil, Term.docIn, Term.map_atom, Term.doc_atom]
    rfl
  | plain ref _ plain =>
    rw [outline_plain plain]
    intro names
    have run : s.typeDoc (.cell ref) names =
        (.text (names.name (s.cell ref).id).1, (names.name (s.cell ref).id).2) := by
      simp only [typeDoc, depth, typeDocWithin, Ty.docM]
      cases state : s.state ref with
      | linked target => exact absurd state (plain target)
      | unbound | generic => rfl
    rw [run, VarNames.name_eq]
    simp [Term.docIn]
  | linked ref target finite linked ih =>
    rw [typeDoc_linked finite linked, outline_linked finite linked]
    exact ih
  | node t head parts finite top ih =>
    rw [outline_node top]
    have docs := docListM_prints (f := s.cellDoc) ih
    intro names
    rw [typeDoc_eq_docM]
    cases t with
    | missing | cell => cases top
    | const | tuple | record | signature =>
      cases top
      simp [Head.opens, Term.docIn_node, Head.doc, Head.bare]
      rfl
    | app decl args =>
      cases top
      have run : (Ty.app decl parts).docM s.cellDoc names =
          (.concat [.text decl.name, argumentsDoc (Ty.docListM s.cellDoc parts names).1],
            (Ty.docListM s.cellDoc parts names).2) := rfl
      rw [run, docs names]
      simp [Head.opens, Term.docIn_node, Head.doc, Head.bare]
    | fn params result =>
      cases top
      have run : (Ty.fn params result).docM s.cellDoc names =
          (Head.fn.doc (Ty.docListM s.cellDoc (params ++ [result]) names).1,
            (Ty.docListM s.cellDoc (params ++ [result]) names).2) := by
        rw [docListM_concat]
        simp only [Head.doc, List.dropLast_concat, List.getLast?_concat, Option.getD_some]
        rfl
      rw [run, docs names]
      simp [Head.opens, Term.docIn_node, Head.bare]

theorem showType_eq (finite : s.Finite t) (width : Int) (names : VarNames) :
    s.showType width t names =
      (((s.outline t).docIn (names.see (s.outline t).ids)).format width,
        names.see (s.outline t).ids) := by
  simp only [showType, typeDoc_prints finite names]

end Store

end LetPoly
