import LetPoly.Proofs.Layout.Columns
import LetPoly.Proofs.Printing.Tokens

namespace LetPoly

open Layout

def punctuation : List Chunk :=
  [.text "fn", .text " -> ", .text "()", .text "(", .text ")", .cut "" "", .cut "," ", ", .cut "," "",
    .text "<unsupported Tuple>", .text "<unsupported Record>", .text "<unsupported Module>",
    .text invalidText]

def listText (args : List String) : String := "(" ++ ", ".intercalate args ++ ")"

namespace Head

def declared : Head → String
  | .const decl | .app decl => decl.name
  | .tuple | .fn | .record _ | .signature _ => ""

def listed {α : Type} : Head → List α → List α
  | .app _, parts => parts
  | .fn, parts => parts.dropLast
  | .const _, _ | .tuple, _ | .record _, _ | .signature _, _ => []

def inline : Head → List String → String
  | .const decl, _ => decl.name
  | .app decl, args => decl.name ++ listText args
  | .fn, args => "fn" ++ listText args.dropLast ++ " -> " ++ args.getLast?.getD ""
  | .tuple, _ => "<unsupported Tuple>"
  | .record _, _ => "<unsupported Record>"
  | .signature _, _ => "<unsupported Module>"

theorem isEmpty_listed_map {α β : Type} (f : α → β) (head : Head) (parts : List α) :
    (head.listed (parts.map f)).isEmpty = (head.listed parts).isEmpty := by
  cases head <;> simp [listed, ← List.map_dropLast]

end Head

def Term.hasArguments {α : Type} (t : Term α) : Bool :=
  t.fold (fun _ => false) fun head below =>
    head.opens && (!(head.listed below).isEmpty || below.any id)

def Term.inlineIn (names : VarNames) (τ : Term (Option Int)) : String :=
  τ.fold (fun id? => (id?.map names.nameOf).getD invalidText) Head.inline

section Arguments

variable {docs : List Doc} {chunk : Layout.Chunk}

def separated (docs : List Doc) : Doc := .join docs (.cut "," ", ")

def enclosed (docs : List Doc) : Doc :=
  .concat [.text "(", .nest 2 (.concat [.cut "" "", separated docs]), .cut "," "", .text ")"]

theorem argumentsDoc_eq (some : docs ≠ []) : argumentsDoc docs = .group (enclosed docs) := by
  cases docs with
  | nil => exact absurd rfl some
  | cons doc docs => rfl

theorem mem_chunks_separated (member : chunk ∈ (separated docs).chunks) :
    chunk = .cut "," ", " ∨ ∃ doc ∈ docs, chunk ∈ doc.chunks := by
  rw [separated, Doc.join, Doc.chunks, chunksOfAll_eq_flatMap, List.mem_flatMap] at member
  obtain ⟨doc, inside, member⟩ := member
  rcases mem_intersperse inside with rfl | inside
  · exact .inl (List.mem_singleton.mp member)
  · exact .inr ⟨doc, inside, member⟩

theorem chunks_enclosed (docs : List Doc) :
    (enclosed docs).chunks =
      .text "(" :: .cut "" "" :: ((separated docs).chunks ++ [.cut "," "", .text ")"]) := by
  simp [enclosed, Doc.chunks, Doc.chunksOfAll]

theorem pieces_enclosed (width : Int) (rest : List Doc) (indent col : Int) (docs : List Doc) :
    (enclosed docs).pieces width rest .broken indent col =
      .text "(" :: .turn "" (indent + 2) ::
        ((separated docs).pieces width (.cut "," "" :: .text ")" :: rest) .broken (indent + 2)
          (indent + 2) ++ [.turn "," indent, .text ")"]) := by
  simp [enclosed, Doc.pieces, Doc.piecesOfAll, Piece.column]

theorem mem_chunks_arguments (member : chunk ∈ (argumentsDoc docs).chunks) :
    chunk ∈ punctuation ∨ ∃ doc ∈ docs, chunk ∈ doc.chunks := by
  by_cases none : docs = []
  · subst none
    obtain rfl := List.mem_singleton.mp member
    exact .inl (by decide)
  · rw [argumentsDoc_eq none, Doc.chunks, chunks_enclosed] at member
    simp only [List.mem_cons, List.mem_append, List.not_mem_nil, or_false] at member
    rcases member with rfl | rfl | member | rfl | rfl
    case inr.inr.inl =>
      rcases mem_chunks_separated member with rfl | inside
      · exact .inl (by decide)
      · exact .inr inside
    all_goals exact .inl (by decide)

theorem mem_chunks_doc {head : Head} (member : chunk ∈ (head.doc docs).chunks) :
    chunk ∈ punctuation ∨ chunk = .text head.declared ∨ ∃ doc ∈ docs, chunk ∈ doc.chunks := by
  cases head with
  | const decl => exact .inr (.inl (List.mem_singleton.mp member))
  | app decl =>
    rcases List.mem_cons.mp member with rfl | member
    · exact .inr (.inl rfl)
    · simp only [Doc.chunksOfAll, List.append_nil] at member
      exact (mem_chunks_arguments member).imp_right .inr
  | fn =>
    simp only [Head.doc, Doc.chunks, Doc.chunksOfAll, List.append_nil, List.mem_append,
      List.mem_singleton] at member
    rcases member with rfl | member | rfl | member
    · exact .inl (by decide)
    · rcases mem_chunks_arguments member with mark | ⟨doc, inside, member⟩
      · exact .inl mark
      · exact .inr (.inr ⟨doc, List.mem_of_mem_dropLast inside, member⟩)
    · exact .inl (by decide)
    · cases last : docs.getLast? with
      | none =>
        rw [last] at member
        cases member
      | some doc =>
        rw [last] at member
        exact .inr (.inr ⟨doc, List.mem_of_getLast? last, member⟩)
  | tuple | record | signature =>
    obtain rfl := List.mem_singleton.mp member
    exact .inl (by decide)

theorem contained_separated (each : ∀ doc ∈ docs, doc.Contained) : (separated docs).Contained := by
  apply Doc.contained_concat
  intro doc member
  rcases mem_intersperse member with rfl | member
  · exact Doc.contained_cut "," ", "
  · exact each doc member

theorem contained_enclosed (free : ∀ doc ∈ docs, doc.LineFree)
    (each : ∀ doc ∈ docs, doc.Contained) : (enclosed docs).Contained := by
  have whole : (enclosed docs).LineFree := by
    intro member
    simp only [chunks_enclosed, List.mem_cons, List.mem_append, List.not_mem_nil, reduceCtorEq,
      false_or, or_false] at member
    rcases mem_chunks_separated member with mark | ⟨doc, inside, member⟩
    · cases mark
    · exact free doc inside member
  intro width rest mode indent col low c member
  cases mode with
  | flat =>
    rw [Doc.pieces_flat whole] at member
    have := columns_kept member
    exact ⟨by omega, this.2⟩
  | broken =>
    have inner := contained_separated each width (.cut "," "" :: .text ")" :: rest) .broken
      (indent + 2) (indent + 2) le_rfl
    have one : Text.width "(" = 1 ∧ Text.width ")" = 1 := by decide
    have total : flatWidth (enclosed docs).chunks = 2 + flatWidth (separated docs).chunks := by
      simp only [chunks_enclosed, flatWidth_cons, flatWidth_append, flatWidth_nil, Chunk.flat]
      have none : Text.width "" = 0 := rfl
      omega
    simp only [pieces_enclosed, columns, Piece.column, List.mem_cons, mem_columns_append,
      List.not_mem_nil, or_false] at member
    rw [total]
    rcases member with rfl | rfl | member | rfl | rfl | rfl
    · omega
    · omega
    · have := inner c member
      omega
    · have := inner _ (columnAfter_mem_columns _ _)
      omega
    · omega
    · omega

theorem contained_arguments (free : ∀ doc ∈ docs, doc.LineFree)
    (each : ∀ doc ∈ docs, doc.Contained) : (argumentsDoc docs).Contained := by
  by_cases none : docs = []
  · subst none
    exact Doc.contained_text "()"
  · rw [argumentsDoc_eq none]
    exact (contained_enclosed free each).group

theorem contained_doc {head : Head} (free : ∀ doc ∈ docs, doc.LineFree)
    (each : ∀ doc ∈ docs, doc.Contained) : (head.doc docs).Contained := by
  cases head with
  | const | tuple | record | signature => exact Doc.contained_text _
  | app decl =>
    apply Doc.contained_concat
    simp only [List.forall_mem_cons, List.not_mem_nil, false_imp_iff, implies_true, and_true]
    exact ⟨Doc.contained_text _, contained_arguments free each⟩
  | fn =>
    have result : (docs.getLast?.getD .nil).Contained := by
      cases last : docs.getLast? with
      | none => exact Doc.contained_concat (by simp)
      | some doc => exact each doc (List.mem_of_getLast? last)
    have params : (argumentsDoc docs.dropLast).Contained :=
      contained_arguments (fun doc inside => free doc (List.mem_of_mem_dropLast inside))
        fun doc inside => each doc (List.mem_of_mem_dropLast inside)
    apply Doc.contained_concat
    simp only [List.forall_mem_cons, List.not_mem_nil, false_imp_iff, implies_true, and_true]
    exact ⟨Doc.contained_text _, params, Doc.contained_text _, result⟩

theorem flatText_separated (docs : List Doc) :
    flatText (separated docs).chunks = ", ".intercalate (docs.map fun doc => flatText doc.chunks) := by
  induction docs with
  | nil => rfl
  | cons doc docs ih =>
    cases docs with
    | nil => simp [separated, Doc.join, Doc.chunks, Doc.chunksOfAll]
    | cons next docs =>
      have step : (separated (doc :: next :: docs)).chunks =
          doc.chunks ++ .cut "," ", " :: (separated (next :: docs)).chunks := rfl
      rw [step, flatText_append, flatText_cons, ih]
      simp only [List.map_cons, String.intercalate_cons_cons, Chunk.flat, String.append_assoc]

theorem flatText_arguments (docs : List Doc) :
    flatText (argumentsDoc docs).chunks = listText (docs.map fun doc => flatText doc.chunks) := by
  by_cases none : docs = []
  · subst none
    rfl
  · rw [argumentsDoc_eq none, Doc.chunks, chunks_enclosed]
    simp [flatText_separated, listText, Chunk.flat, String.append_assoc]

theorem flatText_doc (head : Head) (docs : List Doc) :
    flatText (head.doc docs).chunks = head.inline (docs.map fun doc => flatText doc.chunks) := by
  cases head with
  | const | tuple | record | signature => simp [Head.doc, Head.inline, Doc.chunks, Chunk.flat]
  | app decl =>
    simp [Head.doc, Head.inline, Doc.chunks, Doc.chunksOfAll, Chunk.flat, flatText_arguments]
  | fn =>
    rcases List.eq_nil_or_concat docs with rfl | ⟨params, result, rfl⟩
    · rfl
    · simp [Head.doc, Head.inline, Doc.chunks, Doc.chunksOfAll, Chunk.flat, flatText_arguments,
        String.append_assoc]

theorem hasCut_arguments (docs : List Doc) : (argumentsDoc docs).hasCut = !docs.isEmpty := by
  cases docs with
  | nil => rfl
  | cons doc docs =>
    rw [argumentsDoc_eq (List.cons_ne_nil _ _), Doc.hasCut, Doc.chunks, chunks_enclosed]
    rfl

theorem hasCut_doc (head : Head) (docs : List Doc) :
    (head.doc docs).hasCut =
      (head.opens && (!(head.listed docs).isEmpty || docs.any Doc.hasCut)) := by
  cases head with
  | const | tuple | record | signature => rfl
  | app decl =>
    cases docs with
    | nil => rfl
    | cons doc docs => simp [Head.doc, Head.opens, Head.listed, hasCut_arguments]
  | fn =>
    rcases List.eq_nil_or_concat docs with rfl | ⟨params, result, rfl⟩
    · rfl
    · simp only [Head.doc, Head.opens, Head.listed, List.concat_eq_append, List.dropLast_concat,
        List.getLast?_concat]
      cases params <;> simp [hasCut_arguments]

end Arguments

namespace Term

variable {τ : Term (Option Int)} {names : VarNames}

theorem hasArguments_node {α : Type} (head : Head) (args : List (Term α)) :
    (Term.node head args).hasArguments =
      (head.opens && (!(head.listed args).isEmpty || args.any hasArguments)) := by
  rw [hasArguments, fold_node, Head.isEmpty_listed_map, List.any_map]
  rfl

theorem hasCut_docIn (τ : Term (Option Int)) (names : VarNames) :
    (τ.docIn names).hasCut = τ.hasArguments := by
  induction τ with
  | atom a => simp [docIn, hasArguments]
  | node head args ih =>
    have below : (args.map (docIn names)).any Doc.hasCut = args.any hasArguments := by
      rw [List.any_map, Bool.eq_iff_iff, List.any_eq_true, List.any_eq_true]
      refine exists_congr fun arg => and_congr_right fun member => ?_
      rw [Function.comp_apply, ih arg member]
    rw [docIn_node, hasCut_doc, hasArguments_node, Head.isEmpty_listed_map, below]

theorem flatText_docIn (τ : Term (Option Int)) (names : VarNames) :
    flatText (τ.docIn names).chunks = τ.inlineIn names := by
  induction τ with
  | atom a => simp [docIn, inlineIn, Doc.chunks, Chunk.flat]
  | node head args ih =>
    have below : args.map ((fun doc => flatText doc.chunks) ∘ docIn names) =
        args.map (inlineIn names) := List.map_congr_left ih
    rw [docIn_node, flatText_doc, List.map_map, below, inlineIn, fold_node]
    rfl

theorem mem_chunks_docIn {chunk : Layout.Chunk} (member : chunk ∈ (τ.docIn names).chunks) :
    chunk ∈ punctuation ∨ (∃ i, chunk = .text (varName i)) ∨
      ∃ head ∈ τ.heads, chunk = .text head.declared := by
  induction τ with
  | atom a =>
    cases a with
    | none =>
      have invalid : chunk = .text invalidText := List.mem_singleton.mp member
      subst invalid
      exact .inl (by decide)
    | some id => exact .inr (.inl ⟨_, List.mem_singleton.mp member⟩)
  | node head args ih =>
    rw [docIn_node] at member
    rcases mem_chunks_doc member with mark | rfl | ⟨doc, inside, member⟩
    · exact .inl mark
    · exact .inr (.inr ⟨head, by simp, rfl⟩)
    · obtain ⟨arg, argMember, rfl⟩ := List.mem_map.mp inside
      rcases ih arg argMember member with mark | var | ⟨other, below, rfl⟩
      · exact .inl mark
      · exact .inr (.inl var)
      · refine .inr (.inr ⟨other, ?_, rfl⟩)
        rw [heads_node]
        exact List.mem_cons_of_mem _ (List.mem_flatMap.mpr ⟨arg, argMember, below⟩)

theorem forall_chunks_docIn {P : Layout.Chunk → Prop} (marks : ∀ chunk ∈ punctuation, P chunk)
    (vars : ∀ i, P (.text (varName i))) (names' : ∀ head ∈ τ.heads, P (.text head.declared)) :
    ∀ chunk ∈ (τ.docIn names).chunks, P chunk := by
  intro chunk member
  rcases mem_chunks_docIn member with mark | ⟨i, rfl⟩ | ⟨head, inside, rfl⟩
  · exact marks chunk mark
  · exact vars i
  · exact names' head inside

theorem lineFree_docIn (τ : Term (Option Int)) (names : VarNames) : (τ.docIn names).LineFree := by
  have other : ∀ chunk ∈ (τ.docIn names).chunks, chunk ≠ .line :=
    forall_chunks_docIn (by decide) (by simp) (by simp)
  intro member
  exact other .line member rfl

theorem contained_docIn (τ : Term (Option Int)) (names : VarNames) : (τ.docIn names).Contained := by
  induction τ with
  | atom a => exact Doc.contained_text _
  | node head args ih =>
    rw [docIn_node]
    apply contained_doc
    · intro doc inside
      obtain ⟨arg, -, rfl⟩ := List.mem_map.mp inside
      exact lineFree_docIn arg names
    · intro doc inside
      obtain ⟨arg, argMember, rfl⟩ := List.mem_map.mp inside
      exact ih arg argMember

end Term

namespace Store

variable {s : Store} {width : Int} {t : Ty} {line : Line}

def printed (s : Store) (t : Ty) : Doc := (s.typeDoc t {}).1

theorem printed_eq (finite : s.Finite t) :
    s.printed t = (s.outline t).docIn (VarNames.see {} (s.outline t).ids) := by
  rw [printed, typeDoc_prints finite]

/-- A type that can be printed within a width: it ends, its names stand on one line, and its text
    is no longer than a text can be. -/
structure Presentable (s : Store) (width : Int) (t : Ty) : Prop where
  finite : s.Finite t
  names : ∀ head ∈ (s.outline t).heads, '\n' ∉ head.declared.toList
  nonneg : 0 ≤ width
  word : IsWord width
  bytes : (s.formatType width t).utf8ByteSize < wordLimit

theorem lineFree_printed (finite : s.Finite t) : (s.printed t).LineFree := by
  rw [printed_eq finite]
  exact Term.lineFree_docIn _ _

theorem contained_printed (finite : s.Finite t) : (s.printed t).Contained := by
  rw [printed_eq finite]
  exact Term.contained_docIn _ _

theorem flatWidth_printed_le (finite : s.Finite t) (width : Int) :
    flatWidth (s.printed t).chunks ≤ (s.formatType width t).utf8ByteSize := by
  have all : Doc.chunksOfAll [s.printed t] = (s.printed t).chunks := List.append_nil _
  have short : ∀ chunk ∈ (s.printed t).chunks, chunk.Short := by
    rw [printed_eq finite]
    exact Term.forall_chunks_docIn (by decide) (fun _ => trivial) fun _ _ => trivial
  have bound := (format_renders width (s.printed t)).flatWidth_le (all ▸ short)
  rwa [all, String.utf8Len_toList] at bound

namespace Presentable

theorem format_eq (shown : s.Presentable width t) :
    s.formatType width t = textOf ((s.printed t).layout width) := by
  have short := flatWidth_printed_le shown.finite width
  exact (contained_printed shown.finite).format_eq shown.nonneg shown.word
    (Nat.lt_of_le_of_lt short shown.bytes)

theorem clean (shown : s.Presentable width t) : ∀ chunk ∈ (s.printed t).chunks, chunk.Clean := by
  have vars : ∀ i, '\n' ∉ (varName i).toList := by
    intro i newline
    exact absurd (varName_wordChars i _ newline) (by decide)
  rw [printed_eq shown.finite]
  exact Term.forall_chunks_docIn (by decide) vars shown.names

theorem newline_mem (shown : s.Presentable width t) :
    '\n' ∈ (s.formatType width t).toList ↔
      ∃ piece ∈ (s.printed t).layout width, piece.isTurn = true := by
  rw [shown.format_eq]
  exact newline_mem_textOf (Doc.chunks_become width [] .broken 0 0 (.group (s.printed t))) shown.clean

theorem hasCut_printed (shown : s.Presentable width t) :
    (s.printed t).hasCut = (s.outline t).hasArguments := by
  rw [printed_eq shown.finite, Term.hasCut_docIn]

theorem closing (shown : s.Presentable width t) (member : line ∈ (s.printed t).lines width) :
    line.closing = "" ∨ line.closing = "," := by
  rcases closing_of_mem_lines member with none | ⟨indent, turned⟩
  · exact .inl none
  have become := Doc.chunks_become width [] .broken 0 0 (.group (s.printed t))
  obtain ⟨chunk, inside, becomes⟩ := exists_of_forall₂ become turned
  have ends : ∀ chunk ∈ (s.printed t).chunks, ∀ broken flat, chunk = .cut broken flat →
      broken = "" ∨ broken = "," := by
    rw [printed_eq shown.finite]
    exact Term.forall_chunks_docIn (by simp [punctuation]) (by simp) (by simp)
  generalize line.closing = closing at becomes ⊢
  cases becomes with
  | line => exact absurd inside (lineFree_printed shown.finite)
  | turn _ flat => exact ends _ inside closing flat rfl

theorem width_written_le (shown : s.Presentable width t)
    (member : line ∈ (s.printed t).lines width) (stayed : line.stayed = true) :
    Text.width line.written ≤ width := by
  have snug := Doc.layout_snug (lineFree_printed shown.finite) width
  have inside := (contained_printed shown.finite).nonneg width
  exact width_le_of_snug snug le_rfl inside member stayed

end Presentable

def inlineText (s : Store) (t : Ty) : String :=
  (s.outline t).inlineIn (VarNames.see {} (s.outline t).ids)

/-- The columns of a type on one line, each of its texts by itself. -/
def inlineColumns (s : Store) (t : Ty) : Nat := flatWidth (s.printed t).chunks

def typeLines (s : Store) (width : Int) (t : Ty) : List Line := (s.printed t).lines width

/-- A line on which a cut has stayed is within the width, or the comma that closes it is the first
    character beyond. -/
theorem formatType_lines_fit (shown : s.Presentable width t) :
    s.formatType width t = "\n".intercalate ((s.typeLines width t).map Line.text) ∧
    ∀ line ∈ s.typeLines width t, '\n' ∉ line.text.toList ∧
      (line.stayed = true → Text.width line.text ≤ width ∨
        line.closing = "," ∧ Text.width line.written = width ∧
          Text.width line.text ≤ width + 1) := by
  have become := Doc.chunks_become width [] .broken 0 0 (.group (s.printed t))
  constructor
  · rw [shown.format_eq, ← String.empty_append (s := textOf _)]
    exact textOf_eq_lines "" false _
  intro line member
  refine ⟨lines_clean become shown.clean (by decide) member, fun stayed => ?_⟩
  have fits := shown.width_written_le member stayed
  have joined := Text.width_append_le line.written line.closing
  rw [Line.text]
  rcases shown.closing member with none | comma
  · rw [none, String.append_empty]
    exact .inl fits
  · have one : Text.width "," = 1 := rfl
    rw [comma] at joined ⊢
    by_cases full : Text.width line.written = width
    · exact .inr ⟨rfl, full, by omega⟩
    · exact .inl (by omega)

def nestedType : Ty :=
  .app { name := "F" } [.app { name := "G" } [.const { name := "a" }, .const { name := "b" }]]

theorem nestedType_presentable {width : Int} (near : width = 9 ∨ width = 10) :
    ({} : Store).Presentable width nestedType := by
  have acyclic : ({} : Store).Acyclic := by
    refine acyclic_of_descending ?_
    rintro ref next ⟨target, linked, leaf⟩
    cases linked
  refine ⟨acyclic.finite nestedType, by decide +kernel, ?_, ?_, ?_⟩
  all_goals
    rcases near with rfl | rfl
    all_goals decide +kernel

theorem formatType_lines_fit_nested :
    ({} : Store).Presentable 9 nestedType ∧
      ∀ line ∈ ({} : Store).typeLines 9 nestedType, line.stayed = true →
        Text.width line.text ≤ 10 := by
  have shown := nestedType_presentable (.inl rfl)
  refine ⟨shown, fun line member stayed => ?_⟩
  have := ((formatType_lines_fit shown).2 line member).2 stayed
  omega

/-- The look ahead of a list that fits does not count the comma of the list around it. -/
theorem formatType_line_too_long :
    ({} : Store).formatType 9 nestedType = "F(\n  G(a, b),\n)" ∧
      ∃ line ∈ ({} : Store).typeLines 9 nestedType,
        line.stayed = true ∧ line.text = "  G(a, b)," ∧ 9 < Text.width line.text := by
  decide +kernel

theorem Presentable.still_iff (shown : s.Presentable width t) :
    (∀ piece ∈ (s.printed t).layout width, piece.isTurn = false) ↔
      s.inlineColumns t ≤ width ∨ (s.outline t).hasArguments = false := by
  have still := Doc.still_iff (lineFree_printed shown.finite) width
  rwa [shown.hasCut_printed] at still

theorem Presentable.format_eq_inlineText (shown : s.Presentable width t)
    (still : ∀ piece ∈ (s.printed t).layout width, piece.isTurn = false) :
    s.formatType width t = s.inlineText t := by
  have become := Doc.chunks_become width [] .broken 0 0 (.group (s.printed t))
  have kept := eq_kept_of_becomes become still
  rw [shown.format_eq, Doc.layout, kept, textOf_kept, Doc.chunks, printed_eq shown.finite,
    Term.flatText_docIn, inlineText]

/-- A type is printed on one line exactly if it fits there, or if there is nothing in it that can
    end a line. What stands on one line is the text without any breaks. -/
theorem formatType_one_line_iff (shown : s.Presentable width t) :
    ('\n' ∉ (s.formatType width t).toList ↔
      s.inlineColumns t ≤ width ∨ (s.outline t).hasArguments = false) ∧
    (Text.width (s.inlineText t) = s.inlineColumns t →
      ('\n' ∉ (s.formatType width t).toList ↔
        Text.width (s.inlineText t) ≤ width ∨ (s.outline t).hasArguments = false)) ∧
    ('\n' ∉ (s.formatType width t).toList → s.formatType width t = s.inlineText t) ∧
    ((s.outline t).hasArguments = false → s.formatType width t = s.inlineText t) := by
  have still : '\n' ∉ (s.formatType width t).toList ↔
      ∀ piece ∈ (s.printed t).layout width, piece.isTurn = false := by
    rw [shown.newline_mem]
    simp
  have oneLine := still.trans shown.still_iff
  refine ⟨oneLine, ?_, ?_, ?_⟩
  · intro additive
    rw [additive]
    exact oneLine
  · intro single
    exact shown.format_eq_inlineText (still.mp single)
  · intro none
    exact shown.format_eq_inlineText (shown.still_iff.mpr (.inr none))

theorem formatType_one_line_iff_nested :
    ({} : Store).Presentable 10 nestedType ∧ ({} : Store).inlineColumns nestedType = 10 ∧
      (({} : Store).outline nestedType).hasArguments = true ∧
      '\n' ∉ (({} : Store).formatType 10 nestedType).toList ∧
      ({} : Store).formatType 10 nestedType = "F(G(a, b))" := by
  have shown := nestedType_presentable (.inr rfl)
  obtain ⟨oneLine, -, text, -⟩ := formatType_one_line_iff shown
  have fits : ({} : Store).inlineColumns nestedType = 10 := by decide +kernel
  have single := oneLine.mpr (.inl (by omega))
  refine ⟨shown, fits, by decide +kernel, single, ?_⟩
  rw [text single]
  decide +kernel

end Store

end LetPoly
