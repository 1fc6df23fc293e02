import LetPoly.Proofs.Layout.Rendering
import LetPoly.Proofs.Printing.Outline

namespace LetPoly

open Layout

inductive Token
  | opening
  | closing
  | word (cs : List Char)
deriving DecidableEq

def isBlank (c : Char) : Bool := c = ',' || c = ' ' || c = '\n'

def isWordChar (c : Char) : Bool := !isBlank c && c ≠ '(' && c ≠ ')'

def startsWord : List Char → Bool
  | [] => false
  | c :: _ => isWordChar c

def Token.attach (c : Char) (cs : List Char) (signs : List Token) : List Token :=
  match startsWord cs, signs with
  | true, .word w :: rest => .word (c :: w) :: rest
  | _, _ => .word [c] :: signs

def tokens : List Char → List Token
  | [] => []
  | c :: cs =>
    if isBlank c then tokens cs
    else if c = '(' then .opening :: tokens cs
    else if c = ')' then .closing :: tokens cs
    else Token.attach c cs (tokens cs)

theorem tokens_blanks {blanks : List Char} (each : ∀ c ∈ blanks, isBlank c) (rest : List Char) :
    tokens (blanks ++ rest) = tokens rest := by
  induction blanks with
  | nil => rfl
  | cons c blanks ih =>
    obtain ⟨first, later⟩ := List.forall_mem_cons.mp each
    rw [List.cons_append, tokens, if_pos first, ih later]

theorem tokens_wordChar {c : Char} (word : isWordChar c) (cs : List Char) :
    tokens (c :: cs) = Token.attach c cs (tokens cs) := by
  simp only [isWordChar, Bool.and_eq_true, Bool.not_eq_true', decide_eq_true_eq] at word
  obtain ⟨⟨blank, opening⟩, closing⟩ := word
  simp [tokens, blank, opening, closing]

theorem tokens_word {w rest : List Char} (some : w ≠ []) (each : ∀ c ∈ w, isWordChar c)
    (ends : startsWord rest = false) : tokens (w ++ rest) = .word w :: tokens rest := by
  induction w with
  | nil => exact absurd rfl some
  | cons c w ih =>
    obtain ⟨first, later⟩ := List.forall_mem_cons.mp each
    rw [List.cons_append, tokens_wordChar first]
    cases w with
    | nil => simp [Token.attach, ends]
    | cons d w =>
      have starts : startsWord (d :: w ++ rest) = true := later d List.mem_cons_self
      simp only [ih (by simp) later, Token.attach, starts]

theorem newline_blank (indent : Int) : ∀ c ∈ (newline indent).toList, isBlank c := by
  intro c member
  simp only [newline, String.toList_ofList, List.mem_cons, List.mem_replicate] at member
  rcases member with rfl | ⟨-, rfl⟩ <;> rfl

/-- A name that can be told from the names of variables and from the signs between names. All
    identifiers that start with an upper-case letter are such names. -/
def IsTypeName (name : String) : Prop :=
  (∃ c ∈ name.toList.head?, ¬ c.isLower) ∧ ∀ c ∈ name.toList, isWordChar c

instance (name : String) : Decidable (IsTypeName name) := by
  refine decidable_of_iff
    (name.toList.head?.any (!·.isLower) = true ∧ name.toList.all isWordChar = true) ?_
  simp only [IsTypeName, Option.any_eq_true, List.all_eq_true, Option.mem_def, Bool.not_eq_true',
    Bool.not_eq_true]

def fnWord : List Char := ['f', 'n']

def arrowWord : List Char := ['-', '>']

def Head.tokens : Head → List (List Token) → List Token
  | .const decl, _ => [.word decl.name.toList]
  | .app decl, parts => .word decl.name.toList :: .opening :: (parts.flatten ++ [.closing])
  | .fn, parts =>
    .word fnWord :: .opening ::
      (parts.dropLast.flatten ++ .closing :: .word arrowWord :: parts.getLast?.getD [])
  | .tuple, _ | .record _, _ | .signature _, _ => []

def Term.tokens (t : Term (Option String)) : List Token :=
  t.fold (fun name => [.word (name.getD invalidText).toList]) Head.tokens

inductive Legible : Term (Option String) → Prop
  | var (i : Nat) : Legible (.atom (some (varName i)))
  | const {name : String} (proper : IsTypeName name) : Legible (.node (.const { name }) [])
  | app {name : String} {args : List (Term (Option String))} (proper : IsTypeName name)
    (each : ∀ t ∈ args, Legible t) : Legible (.node (.app { name }) args)
  | fn {params : List (Term (Option String))} {result : Term (Option String)}
    (each : ∀ t ∈ params, Legible t) (last : Legible result) :
    Legible (.node .fn (params ++ [result]))

namespace Term

@[simp] theorem tokens_var (name : String) :
    (Term.atom (some name)).tokens = [.word name.toList] := fold_atom _ _ _

@[simp] theorem tokens_const (name : String) (args : List (Term (Option String))) :
    (Term.node (.const { name }) args).tokens = [.word name.toList] := fold_node _ _ _ _

@[simp] theorem tokens_app (name : String) (args : List (Term (Option String))) :
    (Term.node (.app { name }) args).tokens =
      .word name.toList :: .opening :: (args.flatMap tokens ++ [.closing]) := by
  rw [List.flatMap_def]
  exact fold_node _ _ _ _

@[simp] theorem tokens_fn (params : List (Term (Option String))) (result : Term (Option String)) :
    (Term.node .fn (params ++ [result])).tokens =
      .word fnWord :: .opening ::
        (params.flatMap tokens ++ .closing :: .word arrowWord :: result.tokens) := by
  refine (fold_node _ _ _ _).trans ?_
  simp only [Head.tokens, List.map_append, List.map_cons, List.map_nil, List.dropLast_concat,
    List.getLast?_concat, Option.getD_some, List.flatMap_def]
  rfl

end Term

section Reading

variable {docs : List Doc} {cs : List Char} {t : Term (Option String)}
  {args : List (Term (Option String))}

def Ends (docs : List Doc) : Prop := ∀ cs, Renders docs cs → startsWord cs = false

/-- However the tree is written before other documents, its signs can be read off. -/
def Readable (t : Term (Option String)) : Prop :=
  ∀ docs cs, Ends docs → Renders (t.doc :: docs) cs →
    ∃ rest, Renders docs rest ∧ tokens cs = t.tokens ++ tokens rest

theorem renders_text {s : String} (renders : Renders (.text s :: docs) cs) :
    ∃ rest, Renders docs rest ∧ cs = s.toList ++ rest := by
  cases renders with
  | text _ below => exact ⟨_, below, rfl⟩

theorem renders_cut {broken flat : String} (renders : Renders (.cut broken flat :: docs) cs)
    (blankBroken : ∀ c ∈ broken.toList, isBlank c) (blankFlat : ∀ c ∈ flat.toList, isBlank c) :
    ∃ rest, Renders docs rest ∧ tokens cs = tokens rest := by
  cases renders with
  | flat _ _ below => exact ⟨_, below, tokens_blanks blankFlat _⟩
  | broken _ _ indent below =>
    refine ⟨_, below, tokens_blanks ?_ _⟩
    exact List.forall_mem_append.mpr ⟨blankBroken, newline_blank indent⟩

theorem readable_word {name : String} (some : name.toList ≠ [])
    (each : ∀ c ∈ name.toList, isWordChar c) (ends : Ends docs)
    (renders : Renders (.text name :: docs) cs) :
    ∃ rest, Renders docs rest ∧ tokens cs = .word name.toList :: tokens rest := by
  obtain ⟨rest, below, rfl⟩ := renders_text renders
  exact ⟨rest, below, tokens_word some each (ends rest below)⟩

theorem ends_comma (flat : String) (starts : ∀ cs, startsWord (flat.toList ++ cs) = false) :
    Ends (.cut "," flat :: docs) := by
  intro cs renders
  cases renders with
  | flat => exact starts _
  | broken => rfl

theorem ends_closing (docs : List Doc) : Ends (.cut "," "" :: .text ")" :: docs) := by
  intro cs renders
  cases renders with
  | flat _ _ below =>
    obtain ⟨rest, -, rfl⟩ := renders_text below
    rfl
  | broken => rfl

theorem readable_list (each : ∀ t ∈ args, Readable t) (ends : Ends docs)
    (renders : Renders ((args.map Term.doc).intersperse (.cut "," ", ") ++ docs) cs) :
    ∃ rest, Renders docs rest ∧ tokens cs = args.flatMap Term.tokens ++ tokens rest := by
  induction args generalizing cs with
  | nil => exact ⟨cs, renders, rfl⟩
  | cons t args ih =>
    obtain ⟨first, later⟩ := List.forall_mem_cons.mp each
    cases args with
    | nil =>
      obtain ⟨rest, below, same⟩ := first docs cs ends renders
      exact ⟨rest, below, by simpa using same⟩
    | cons u args =>
      obtain ⟨behind, below, same⟩ := first _ cs (ends_comma ", " fun _ => rfl) renders
      obtain ⟨next, below, passed⟩ := renders_cut below (List.all_eq_true.mp (by decide))
        (List.all_eq_true.mp (by decide))
      obtain ⟨rest, below, same'⟩ := ih later below
      refine ⟨rest, below, ?_⟩
      rw [same, passed, same', ← List.append_assoc]
      rfl

theorem readable_arguments (each : ∀ t ∈ args, Readable t)
    (renders : Renders (argumentsDoc (args.map Term.doc) :: docs) cs) :
    ∃ rest, Renders docs rest ∧
      tokens cs = .opening :: (args.flatMap Term.tokens ++ .closing :: tokens rest) := by
  cases args with
  | nil =>
    obtain ⟨rest, below, rfl⟩ := renders_text renders
    exact ⟨rest, below, rfl⟩
  | cons t args =>
    cases renders with
    | group renders =>
    cases renders with
    | concat renders =>
    obtain ⟨inner, below, rfl⟩ := renders_text renders
    cases below with
    | nest _ below =>
    cases below with
    | concat below =>
    obtain ⟨behind, below, passed⟩ := renders_cut below (List.all_eq_true.mp (by decide))
      (List.all_eq_true.mp (by decide))
    cases below with
    | concat below =>
    obtain ⟨close, below, same⟩ := readable_list each (ends_closing docs) below
    obtain ⟨close', below, passed'⟩ := renders_cut below (List.all_eq_true.mp (by decide))
      (List.all_eq_true.mp (by decide))
    obtain ⟨rest, last, rfl⟩ := renders_text below
    refine ⟨rest, last, ?_⟩
    have opened : tokens ("(".toList ++ inner) = .opening :: tokens inner := rfl
    have closed : tokens (")".toList ++ rest) = .closing :: tokens rest := rfl
    rw [opened, passed, same, passed', closed]

theorem ends_arguments (docs : List Doc) (more : List Doc) : Ends (argumentsDoc docs :: more) := by
  intro cs renders
  cases docs with
  | nil =>
    obtain ⟨rest, -, rfl⟩ := renders_text renders
    rfl
  | cons doc docs =>
    cases renders with
    | group renders =>
    cases renders with
    | concat renders =>
    obtain ⟨rest, -, rfl⟩ := renders_text renders
    rfl

theorem tokens_arrow (rest : List Char) :
    tokens (" -> ".toList ++ rest) = .word arrowWord :: tokens rest := rfl

theorem isWordChar_of_le {c : Char} (large : 48 ≤ c.toNat) : isWordChar c := by
  have apart : ∀ d : Char, d.toNat < 48 → c ≠ d := by
    rintro d small rfl
    omega
  simp [isWordChar, isBlank, apart ',' (by decide), apart ' ' (by decide), apart '\n' (by decide),
    apart '(' (by decide), apart ')' (by decide)]

theorem varName_wordChars (i : Nat) : ∀ c ∈ (varName i).toList, isWordChar c := by
  intro c member
  rw [toList_varName, List.mem_cons] at member
  apply isWordChar_of_le
  rcases member with rfl | digit
  · rw [letter_toNat]
    have start : 'a'.toNat = 97 := rfl
    omega
  · have digit := nameDigits_isDigit digit
    simp only [Char.isDigit, Bool.and_eq_true, decide_eq_true_eq] at digit
    exact digit.1

theorem IsTypeName.ne_nil {name : String} (proper : IsTypeName name) : name.toList ≠ [] := by
  obtain ⟨⟨c, first, -⟩, -⟩ := proper
  intro empty
  simp [empty] at first

theorem Legible.readable (legible : Legible t) : Readable t := by
  induction legible with
  | var i =>
    intro docs cs ends renders
    rw [Term.doc_atom] at renders
    rw [Term.tokens_var]
    exact readable_word (by simp [toList_varName]) (varName_wordChars i) ends renders
  | const proper =>
    intro docs cs ends renders
    rw [Term.doc_node] at renders
    rw [Term.tokens_const]
    exact readable_word proper.ne_nil proper.2 ends renders
  | app proper _ ih =>
    intro docs cs ends renders
    rw [Term.doc_node] at renders
    cases renders with
    | concat renders =>
    obtain ⟨behind, below, same⟩ :=
      readable_word proper.ne_nil proper.2 (ends_arguments _ docs) renders
    obtain ⟨rest, below, same'⟩ := readable_arguments ih below
    refine ⟨rest, below, ?_⟩
    simp [same, same']
  | fn _ _ ih last =>
    intro docs cs ends renders
    rw [Term.doc_node] at renders
    simp only [List.map_append, List.map_cons, List.map_nil, Head.doc, List.dropLast_concat,
      List.getLast?_concat, Option.getD_some] at renders
    cases renders with
    | concat renders =>
    obtain ⟨first, below, same⟩ :=
      readable_word (by decide) (List.all_eq_true.mp (by decide)) (ends_arguments _ _) renders
    obtain ⟨second, below, same'⟩ := readable_arguments ih below
    obtain ⟨third, result, rfl⟩ := renders_text below
    obtain ⟨rest, below, same''⟩ := last docs third ends result
    refine ⟨rest, below, ?_⟩
    rw [same, same', tokens_arrow, same'']
    simp [fnWord]

end Reading

section Decoding

variable {t u : Term (Option String)} {ts us : List (Term (Option String))} {rest rest' : List Token}

theorem varName_ne_typeName {name : String} (proper : IsTypeName name) (i : Nat) :
    (varName i).toList ≠ name.toList := by
  obtain ⟨⟨c, first, upper⟩, -⟩ := proper
  intro same
  rw [← same, toList_varName, List.head?_cons, Option.mem_def, Option.some.injEq] at first
  have lower : ∀ k < 26, (Char.ofNat ('a'.toNat + k)).isLower := by decide
  exact upper (first ▸ lower _ (Nat.mod_lt i (by decide)))

theorem fnWord_ne_typeName {name : String} (proper : IsTypeName name) : fnWord ≠ name.toList := by
  obtain ⟨⟨c, first, upper⟩, -⟩ := proper
  intro same
  rw [← same, fnWord, List.head?_cons, Option.mem_def, Option.some.injEq] at first
  exact upper (first ▸ by decide)

theorem fnWord_ne_varName (i : Nat) : fnWord ≠ (varName i).toList := by
  intro same
  rw [toList_varName, fnWord, List.cons.injEq] at same
  have digit : 'n' ∈ nameDigits i := by simp [← same.2]
  exact absurd (nameDigits_isDigit digit) (by decide)

theorem Legible.tokens_cons (legible : Legible t) : ∃ w signs, t.tokens = .word w :: signs := by
  cases legible with
  | var i => exact ⟨_, _, Term.tokens_var _⟩
  | const => exact ⟨_, _, Term.tokens_const _ _⟩
  | app => exact ⟨_, _, Term.tokens_app _ _⟩
  | fn => exact ⟨_, _, Term.tokens_fn _ _⟩

def Decodable (t : Term (Option String)) : Prop :=
  ∀ u rest rest', Legible u → rest.head? ≠ some .opening → rest'.head? ≠ some .opening →
    t.tokens ++ rest = u.tokens ++ rest' → t = u ∧ rest = rest'

theorem head_arguments (each : ∀ t ∈ ts, Legible t) (rest : List Token) :
    (ts.flatMap Term.tokens ++ .closing :: rest).head? ≠ some .opening := by
  cases ts with
  | nil => simp
  | cons t ts =>
    obtain ⟨w, signs, start⟩ := (each t List.mem_cons_self).tokens_cons
    simp [start]

theorem decodable_arguments (each : ∀ t ∈ ts, Legible t) (decodable : ∀ t ∈ ts, Decodable t)
    (each' : ∀ u ∈ us, Legible u)
    (same : ts.flatMap Term.tokens ++ .closing :: rest =
      us.flatMap Term.tokens ++ .closing :: rest') :
    ts = us ∧ rest = rest' := by
  induction ts generalizing us with
  | nil =>
    cases us with
    | nil => exact ⟨rfl, by simpa using same⟩
    | cons u us =>
      obtain ⟨w, signs, start⟩ := (each' u List.mem_cons_self).tokens_cons
      simp [start] at same
  | cons t ts ih =>
    obtain ⟨first, later⟩ := List.forall_mem_cons.mp each
    obtain ⟨decode, decodeLater⟩ := List.forall_mem_cons.mp decodable
    cases us with
    | nil =>
      obtain ⟨w, signs, start⟩ := first.tokens_cons
      simp [start] at same
    | cons u us =>
      obtain ⟨first', later'⟩ := List.forall_mem_cons.mp each'
      simp only [List.flatMap_cons, List.append_assoc] at same
      obtain ⟨rfl, below⟩ := decode u _ _ first' (head_arguments later rest)
        (head_arguments later' rest') same
      obtain ⟨rfl, end_eq⟩ := ih later decodeLater later' below
      exact ⟨rfl, end_eq⟩

theorem Legible.starts (legible : Legible u) {w : List Char} {signs : List Token}
    (same : .word w :: signs = u.tokens ++ rest) : u.tokens.head? = some (.word w) := by
  obtain ⟨w', signs', start⟩ := legible.tokens_cons
  rw [start, List.cons_append, List.cons.injEq] at same
  rw [start, same.1, List.head?_cons]

theorem Legible.of_varName (legible : Legible u) {i : Nat}
    (starts : u.tokens.head? = some (.word (varName i).toList)) :
    u = .atom (some (varName i)) := by
  cases legible with
  | var j =>
    simp only [Term.tokens_var, List.head?_cons, Option.some.injEq, Token.word.injEq] at starts
    rw [String.toList_injective starts]
  | const proper =>
    simp only [Term.tokens_const, List.head?_cons, Option.some.injEq, Token.word.injEq] at starts
    exact absurd starts.symm (varName_ne_typeName proper i)
  | app proper =>
    simp only [Term.tokens_app, List.head?_cons, Option.some.injEq, Token.word.injEq] at starts
    exact absurd starts.symm (varName_ne_typeName proper i)
  | fn =>
    simp only [Term.tokens_fn, List.head?_cons, Option.some.injEq, Token.word.injEq] at starts
    exact absurd starts (fnWord_ne_varName i)

theorem Legible.of_typeName (legible : Legible u) {name : String} (proper : IsTypeName name)
    (starts : u.tokens.head? = some (.word name.toList)) :
    u = .node (.const { name }) [] ∨
      ∃ args, (∀ t ∈ args, Legible t) ∧ u = .node (.app { name }) args := by
  cases legible with
  | var j =>
    simp only [Term.tokens_var, List.head?_cons, Option.some.injEq, Token.word.injEq] at starts
    exact absurd starts (varName_ne_typeName proper j)
  | const =>
    simp only [Term.tokens_const, List.head?_cons, Option.some.injEq, Token.word.injEq] at starts
    exact .inl (by rw [String.toList_injective starts])
  | app _ each =>
    simp only [Term.tokens_app, List.head?_cons, Option.some.injEq, Token.word.injEq] at starts
    exact .inr ⟨_, each, by rw [String.toList_injective starts]⟩
  | fn =>
    simp only [Term.tokens_fn, List.head?_cons, Option.some.injEq, Token.word.injEq] at starts
    exact absurd starts (fnWord_ne_typeName proper)

theorem Legible.of_fnWord (legible : Legible u) (starts : u.tokens.head? = some (.word fnWord)) :
    ∃ params result, (∀ t ∈ params, Legible t) ∧ Legible result ∧
      u = .node .fn (params ++ [result]) := by
  cases legible with
  | var j =>
    simp only [Term.tokens_var, List.head?_cons, Option.some.injEq, Token.word.injEq] at starts
    exact absurd starts.symm (fnWord_ne_varName j)
  | const proper =>
    simp only [Term.tokens_const, List.head?_cons, Option.some.injEq, Token.word.injEq] at starts
    exact absurd starts.symm (fnWord_ne_typeName proper)
  | app proper =>
    simp only [Term.tokens_app, List.head?_cons, Option.some.injEq, Token.word.injEq] at starts
    exact absurd starts.symm (fnWord_ne_typeName proper)
  | fn each last => exact ⟨_, _, each, last, rfl⟩

theorem Legible.decodable (legible : Legible t) : Decodable t := by
  induction legible with
  | var i =>
    intro u rest rest' legible' _ _ same
    rw [Term.tokens_var, List.cons_append, List.nil_append] at same
    obtain rfl := legible'.of_varName (legible'.starts same)
    rw [Term.tokens_var, List.cons_append, List.nil_append, List.cons.injEq] at same
    exact ⟨rfl, same.2⟩
  | const proper =>
    intro u rest rest' legible' after _ same
    rw [Term.tokens_const, List.cons_append, List.nil_append] at same
    rcases legible'.of_typeName proper (legible'.starts same) with rfl | ⟨args, -, rfl⟩
    · rw [Term.tokens_const, List.cons_append, List.nil_append, List.cons.injEq] at same
      exact ⟨rfl, same.2⟩
    · -- an argument list behind the name cannot be what follows it
      rw [Term.tokens_app, List.cons_append, List.cons.injEq] at same
      simp [same.2] at after
  | app proper each ih =>
    intro u rest rest' legible' _ after' same
    rw [Term.tokens_app, List.cons_append] at same
    rcases legible'.of_typeName proper (legible'.starts same) with rfl | ⟨args, each', rfl⟩
    · rw [Term.tokens_const, List.singleton_append, List.cons.injEq] at same
      simp [← same.2] at after'
    · simp only [Term.tokens_app, List.cons_append, List.nil_append, List.append_assoc,
        List.cons.injEq, true_and] at same
      obtain ⟨rfl, below⟩ := decodable_arguments each ih each' same
      exact ⟨rfl, below⟩
  | fn each last ih decodeLast =>
    intro u rest rest' legible' after after' same
    rw [Term.tokens_fn, List.cons_append] at same
    obtain ⟨params, result, each', last', rfl⟩ := legible'.of_fnWord (legible'.starts same)
    simp only [Term.tokens_fn, List.cons_append, List.append_assoc, List.cons.injEq,
      true_and] at same
    obtain ⟨rfl, arrow⟩ := decodable_arguments each ih each' same
    simp only [List.cons.injEq, true_and] at arrow
    obtain ⟨rfl, below⟩ := decodeLast _ _ _ last' after after' arrow
    exact ⟨rfl, below⟩

theorem Legible.eq_of_format (legible : Legible t) (legible' : Legible u) {width : Int}
    (same : t.doc.format width = u.doc.format width) : t = u := by
  have ends : Ends [] := by
    intro cs renders
    cases renders
    rfl
  -- the layout does not matter: whatever the lines are, the signs are those of the tree
  obtain ⟨rest, none, read⟩ := legible.readable [] _ ends (format_renders width t.doc)
  obtain ⟨rest', none', read'⟩ := legible'.readable [] _ ends (format_renders width u.doc)
  cases none
  cases none'
  have signs : t.tokens ++ tokens [] = u.tokens ++ tokens [] := by rw [← read, ← read', same]
  exact (legible.decodable u _ _ legible' (by simp [tokens]) (by simp [tokens]) signs).1

end Decoding

end LetPoly
