import LetPoly.Proofs.Layout.Rendering

namespace LetPoly.Layout

inductive Chunk
  | text (s : String)
  | line
  | cut (broken flat : String)
deriving DecidableEq

namespace Chunk

def flat : Chunk → String
  | .text s => s
  | .line => ""
  | .cut _ flat => flat

def isText : Chunk → Bool
  | .text _ => true
  | .line | .cut _ _ => false

end Chunk

def flatWidth (chunks : List Chunk) : Nat :=
  chunks.foldr (fun chunk n => Text.width chunk.flat + n) 0

def openWidth (chunks : List Chunk) : Nat := flatWidth (chunks.takeWhile Chunk.isText)

/-- A part of a finished text: a text, a cut that stays on the line, or the end of a line with what
    stands before it and the indentation behind it. -/
inductive Piece
  | text (s : String)
  | stay (flat : String)
  | turn (broken : String) (indent : Int)
deriving DecidableEq

namespace Piece

def toText : Piece → String
  | .text s => s
  | .stay flat => flat
  | .turn broken indent => broken ++ newline indent

def column (col : Int) : Piece → Int
  | .text s => col + Text.width s
  | .stay flat => col + Text.width flat
  | .turn _ indent => indent

end Piece

def textOf (pieces : List Piece) : String := String.join (pieces.map Piece.toText)

def columnAfter (col : Int) (pieces : List Piece) : Int := pieces.foldl Piece.column col

def columns (col : Int) : List Piece → List Int
  | [] => [col]
  | piece :: pieces => col :: columns (piece.column col) pieces

namespace Doc

@[elab_as_elim, induction_eliminator]
theorem induction {motive : Doc → Prop} (text : ∀ s, motive (.text s)) (line : motive .line)
    (cut : ∀ broken flat, motive (.cut broken flat))
    (nest : ∀ step doc, motive doc → motive (.nest step doc))
    (group : ∀ doc, motive doc → motive (.group doc)) (nil : motive (.concat []))
    (cons : ∀ doc docs, motive doc → motive (.concat docs) → motive (.concat (doc :: docs)))
    (doc : Doc) : motive doc := by
  refine @Doc.rec motive (fun docs => motive (.concat docs)) text line cut nest group ?_ nil cons doc
  intro docs all
  exact all

mutual

def chunks : Doc → List Chunk
  | .text s => [.text s]
  | .line => [.line]
  | .cut broken flat => [.cut broken flat]
  | .nest _ doc => doc.chunks
  | .group doc => doc.chunks
  | .concat docs => chunksOfAll docs

def chunksOfAll : List Doc → List Chunk
  | [] => []
  | doc :: docs => doc.chunks ++ chunksOfAll docs

end

/-- Columns that a group takes on its line if it is flat. Behind a group without a line end, these
    go on to the next place where the line can end. -/
def extent (doc : Doc) (rest : List Doc) : Nat :=
  flatWidth (doc.chunks.takeWhile (· ≠ .line)) +
    if .line ∈ doc.chunks then 0 else openWidth (chunksOfAll rest)

mutual

/-- The layout rule: what a document is written as from a column on. Below a flat group all is
    flat, and another group is flat if what it takes then is not more than is left of the line. -/
def pieces (width : Int) (rest : List Doc) (mode : Mode) (indent col : Int) : Doc → List Piece
  | .text s => [.text s]
  | .line => [.turn "" indent]
  | .cut broken flat =>
    match mode with
    | .flat => [.stay flat]
    | .broken => [.turn broken indent]
  | .nest step doc => doc.pieces width rest mode (indent + step) col
  | .group doc =>
    if mode = .flat ∨ doc.extent rest ≤ width - col then doc.pieces width rest .flat indent col
    else doc.pieces width rest .broken indent col
  | .concat docs => piecesOfAll width rest mode indent col docs

def piecesOfAll (width : Int) (rest : List Doc) (mode : Mode) (indent col : Int) :
    List Doc → List Piece
  | [] => []
  | doc :: docs =>
    let first := doc.pieces width (docs ++ rest) mode indent col
    first ++ piecesOfAll width rest mode indent (columnAfter col first) docs

end

def layout (width : Int) (doc : Doc) : List Piece := (group doc).pieces width [] .broken 0 0

end Doc

/-- No column between the pieces, and no room that is left behind one, leaves the signed words. -/
def Within (width col : Int) (pieces : List Piece) : Prop :=
  ∀ c ∈ columns col pieces, IsWord c ∧ IsWord (width - c)

instance (width col : Int) (pieces : List Piece) : Decidable (Within width col pieces) :=
  inferInstanceAs (Decidable (∀ c ∈ columns col pieces, IsWord c ∧ IsWord (width - c)))

@[simp] theorem flatWidth_nil : flatWidth [] = 0 := rfl

@[simp] theorem flatWidth_cons (chunk : Chunk) (chunks : List Chunk) :
    flatWidth (chunk :: chunks) = Text.width chunk.flat + flatWidth chunks := rfl

@[simp] theorem flatWidth_append (chunks more : List Chunk) :
    flatWidth (chunks ++ more) = flatWidth chunks + flatWidth more := by
  induction chunks with
  | nil => simp
  | cons chunk chunks ih => simp [ih, Nat.add_assoc]

@[simp] theorem openWidth_nil : openWidth [] = 0 := rfl

@[simp] theorem openWidth_text (s : String) (chunks : List Chunk) :
    openWidth (.text s :: chunks) = Text.width s + openWidth chunks := by
  simp [openWidth, List.takeWhile_cons, Chunk.isText, Chunk.flat]

@[simp] theorem openWidth_line (chunks : List Chunk) : openWidth (.line :: chunks) = 0 := by
  simp [openWidth, Chunk.isText]

@[simp] theorem openWidth_cut (broken flat : String) (chunks : List Chunk) :
    openWidth (.cut broken flat :: chunks) = 0 := by
  simp [openWidth, Chunk.isText]

@[simp] theorem textOf_nil : textOf [] = "" := rfl

@[simp] theorem textOf_cons (piece : Piece) (pieces : List Piece) :
    textOf (piece :: pieces) = piece.toText ++ textOf pieces := by
  simp [textOf, String.join_cons]

@[simp] theorem textOf_append (pieces more : List Piece) :
    textOf (pieces ++ more) = textOf pieces ++ textOf more := by
  simp [textOf, String.join_append]

@[simp] theorem columnAfter_nil (col : Int) : columnAfter col [] = col := rfl

@[simp] theorem columnAfter_cons (col : Int) (piece : Piece) (pieces : List Piece) :
    columnAfter col (piece :: pieces) = columnAfter (piece.column col) pieces := rfl

@[simp] theorem columnAfter_append (col : Int) (pieces more : List Piece) :
    columnAfter col (pieces ++ more) = columnAfter (columnAfter col pieces) more := by
  simp [columnAfter]

theorem Doc.chunks_cons (doc : Doc) (docs : List Doc) :
    (concat (doc :: docs)).chunks = doc.chunks ++ (concat docs).chunks := rfl

theorem Doc.pieces_cons (width : Int) (rest : List Doc) (mode : Mode) (indent col : Int) (doc : Doc)
    (docs : List Doc) :
    (concat (doc :: docs)).pieces width rest mode indent col =
      doc.pieces width (docs ++ rest) mode indent col ++
        (concat docs).pieces width rest mode indent
          (columnAfter col (doc.pieces width (docs ++ rest) mode indent col)) := rfl

theorem chunksOfAll_eq_flatMap (docs : List Doc) :
    Doc.chunksOfAll docs = docs.flatMap Doc.chunks := by
  induction docs with
  | nil => rfl
  | cons doc docs ih => rw [Doc.chunksOfAll, ih, List.flatMap_cons]

theorem col_mem_columns (col : Int) (pieces : List Piece) : col ∈ columns col pieces := by
  cases pieces <;> simp [columns]

theorem mem_columns_append {c col : Int} {pieces more : List Piece} :
    c ∈ columns col (pieces ++ more) ↔
      c ∈ columns col pieces ∨ c ∈ columns (columnAfter col pieces) more := by
  induction pieces generalizing col with
  | nil =>
    have first := col_mem_columns col more
    simp only [List.nil_append, columns, columnAfter_nil, List.mem_singleton]
    grind
  | cons piece pieces ih => simp [columns, ih, or_assoc]

def upcoming (queue : List Pending) : List (Mode × Chunk) :=
  queue.flatMap fun item => item.doc.chunks.map (item.mode, ·)

theorem upcoming_cons (indent : Int) (mode : Mode) (doc : Doc) (queue : List Pending) :
    upcoming (⟨indent, mode, doc⟩ :: queue) = doc.chunks.map (mode, ·) ++ upcoming queue := rfl

theorem upcoming_spread (item : Pending) (docs : List Doc) (queue : List Pending) :
    upcoming (item.spread docs ++ queue) =
      (Doc.chunksOfAll docs).map (item.mode, ·) ++ upcoming queue := by
  rw [upcoming, List.flatMap_append, Pending.spread, List.flatMap_map, chunksOfAll_eq_flatMap,
    List.map_flatMap]
  rfl

theorem upcoming_broken {queue : List Pending} (broken : ∀ item ∈ queue, item.mode = .broken) :
    upcoming queue = (Doc.chunksOfAll (queue.map Pending.doc)).map (.broken, ·) := by
  rw [chunksOfAll_eq_flatMap, List.flatMap_map, List.map_flatMap, upcoming, List.flatMap_def,
    List.flatMap_def]
  refine congrArg List.flatten (List.map_congr_left fun item member => ?_)
  rw [broken item member]

def passes : Mode × Chunk → Bool
  | (_, .text _) => true
  | (_, .line) => false
  | (mode, .cut _ _) => mode = .flat

def reach (ahead : List (Mode × Chunk)) : Nat := flatWidth ((ahead.takeWhile passes).map Prod.snd)

@[simp] theorem reach_nil : reach [] = 0 := rfl

@[simp] theorem reach_text (mode : Mode) (s : String) (ahead : List (Mode × Chunk)) :
    reach ((mode, .text s) :: ahead) = Text.width s + reach ahead := by
  simp [reach, passes, List.takeWhile_cons, Chunk.flat]

@[simp] theorem reach_line (mode : Mode) (ahead : List (Mode × Chunk)) :
    reach ((mode, .line) :: ahead) = 0 := by
  simp [reach, passes]

@[simp] theorem reach_broken_cut (broken flat : String) (ahead : List (Mode × Chunk)) :
    reach ((.broken, .cut broken flat) :: ahead) = 0 := by
  simp [reach, passes]

@[simp] theorem reach_flat_cut (broken flat : String) (ahead : List (Mode × Chunk)) :
    reach ((.flat, .cut broken flat) :: ahead) = Text.width flat + reach ahead := by
  simp [reach, passes, Chunk.flat]

theorem reach_flat (chunks : List Chunk) (ahead : List (Mode × Chunk)) :
    reach (chunks.map (.flat, ·) ++ ahead) =
      flatWidth (chunks.takeWhile (· ≠ .line)) + if .line ∈ chunks then 0 else reach ahead := by
  induction chunks with
  | nil => simp
  | cons chunk chunks ih =>
    cases chunk with
    | text s => simp [ih, Chunk.flat, Nat.add_assoc]
    | line => simp
    | cut broken flat => simp [ih, Chunk.flat, Nat.add_assoc]

theorem reach_broken (chunks : List Chunk) :
    reach (chunks.map (.broken, ·)) = openWidth chunks := by
  induction chunks with
  | nil => rfl
  | cons chunk chunks ih => cases chunk <;> simp [ih]

theorem fits_iff (room : Int) (queue : List Pending) :
    fits room queue = true ↔ reach (upcoming queue) ≤ room := by
  fun_induction fits room queue with
  | case1 room queue short =>
    simp only [Bool.false_eq_true, false_iff, Int.not_le]
    omega
  | case2 room enough =>
    have none : reach (upcoming []) = 0 := rfl
    rw [none]
    exact iff_of_true rfl (by omega)
  | case3 room enough indent mode rest s ih =>
    have first : reach (upcoming (⟨indent, mode, .text s⟩ :: rest)) =
        Text.width s + reach (upcoming rest) := reach_text ..
    rw [ih, first]
    omega
  | case4 room enough indent mode rest =>
    have first : reach (upcoming (⟨indent, mode, .line⟩ :: rest)) = 0 := reach_line ..
    rw [first]
    exact iff_of_true rfl (by omega)
  | case5 room enough indent rest broken flat =>
    have first : reach (upcoming (⟨indent, .broken, .cut broken flat⟩ :: rest)) = 0 :=
      reach_broken_cut ..
    rw [first]
    exact iff_of_true rfl (by omega)
  | case6 room enough indent rest broken flat ih =>
    have first : reach (upcoming (⟨indent, .flat, .cut broken flat⟩ :: rest)) =
        Text.width flat + reach (upcoming rest) := reach_flat_cut ..
    rw [ih, first]
    omega
  | case7 room enough indent mode rest step doc ih => exact ih
  | case8 room enough indent mode rest doc ih => exact ih
  | case9 room enough indent mode rest docs ih =>
    rw [ih, upcoming_spread]
    rfl

theorem fits_flat_iff (room indent : Int) (doc : Doc) {queue : List Pending}
    (broken : ∀ item ∈ queue, item.mode = .broken) :
    fits room (⟨indent, .flat, doc⟩ :: queue) = true ↔
      doc.extent (queue.map Pending.doc) ≤ room := by
  rw [fits_iff, upcoming_cons, upcoming_broken broken, reach_flat, reach_broken, Doc.extent]

theorem Within.word {width col : Int} {pieces : List Piece} (within : Within width col pieces) :
    IsWord col ∧ IsWord (width - col) :=
  within col (col_mem_columns col pieces)

theorem Within.after {width col : Int} {piece : Piece} {pieces : List Piece}
    (within : Within width col (piece :: pieces)) : Within width (piece.column col) pieces := by
  intro c member
  exact within c (List.mem_cons_of_mem col member)

theorem within_append {width col : Int} {pieces more : List Piece} :
    Within width col (pieces ++ more) ↔
      Within width col pieces ∧ Within width (columnAfter col pieces) more := by
  simp only [Within, mem_columns_append, or_imp]
  exact forall_and

/-- The renderer writes a document that waits as the layout rule says. The documents that wait
    behind a broken one are broken. -/
def Follows (width : Int) (doc : Doc) : Prop :=
  ∀ (mode : Mode) (indent col : Int) (out : String) (queue : List Pending),
    (mode = .broken → ∀ item ∈ queue, item.mode = .broken) →
    Within width col (doc.pieces width (queue.map Pending.doc) mode indent col) →
    write width out col (⟨wrap64 indent, mode, doc⟩ :: queue) =
      write width (out ++ textOf (doc.pieces width (queue.map Pending.doc) mode indent col))
        (columnAfter col (doc.pieces width (queue.map Pending.doc) mode indent col)) queue

theorem follows_group {width : Int} {doc : Doc} (inner : Follows width doc) :
    Follows width (.group doc) := by
  intro mode indent col out queue broken within
  simp only [Doc.pieces] at within ⊢
  have room : wrap64 (width - col) = width - col := wrap64_of_isWord within.word.2
  rw [write, room]
  cases mode with
  | flat =>
    simp only [true_or, if_true, decide_true, Bool.true_or] at within ⊢
    exact inner .flat indent col out queue (by simp) within
  | broken =>
    have decided := fits_flat_iff (width - col) (wrap64 indent) doc (broken rfl)
    by_cases enough : doc.extent (queue.map Pending.doc) ≤ width - col
    · simp only [decided.mpr enough, enough, or_true, Bool.or_true, if_true] at within ⊢
      exact inner .flat indent col out queue (by simp) within
    · have short : fits (width - col) (⟨wrap64 indent, .flat, doc⟩ :: queue) = false := by
        rw [← Bool.not_eq_true, decided]
        exact enough
      simp only [reduceCtorEq, decide_false, short, enough, or_self, Bool.or_self,
        Bool.false_eq_true, if_false] at within ⊢
      exact inner .broken indent col out queue broken within

theorem write_concat (width : Int) (out : String) (col indent : Int) (mode : Mode)
    (docs : List Doc) (queue : List Pending) :
    write width out col (⟨indent, mode, .concat docs⟩ :: queue) =
      write width out col (Pending.spread ⟨indent, mode, .nil⟩ docs ++ queue) := by
  rw [write]

theorem follows_cons {width : Int} {doc : Doc} {docs : List Doc} (first : Follows width doc)
    (later : Follows width (.concat docs)) : Follows width (.concat (doc :: docs)) := by
  intro mode indent col out queue broken within
  rw [Doc.pieces_cons, within_append] at within
  rw [Doc.pieces_cons]
  -- the documents behind the first one are in its mode
  let behind := Pending.spread ⟨wrap64 indent, mode, .nil⟩ docs ++ queue
  have broken_behind : mode = .broken → ∀ item ∈ behind, item.mode = .broken := by
    intro same item member
    rcases List.mem_append.mp member with here | there
    · obtain ⟨other, _, rfl⟩ := List.mem_map.mp here
      exact same
    · exact broken same item there
  have step := first mode indent col out behind broken_behind
  rw [map_doc_spread] at step
  have rest := fun text => later mode indent _ text queue broken within.2
  simp only [write_concat] at rest
  calc write width out col (⟨wrap64 indent, mode, .concat (doc :: docs)⟩ :: queue)
    _ = write width out col (⟨wrap64 indent, mode, doc⟩ :: behind) := write_concat ..
    _ = _ := step within.1
    _ = _ := rest _
    _ = _ := by rw [textOf_append, columnAfter_append, String.append_assoc]

theorem follows (width : Int) (doc : Doc) : Follows width doc := by
  induction doc with
  | text s =>
    intro mode indent col out queue broken within
    have word : wrap64 (col + Text.width s) = col + Text.width s :=
      wrap64_of_isWord within.after.word.1
    rw [write, word]
    simp [Doc.pieces, Piece.toText, Piece.column]
  | line =>
    intro mode indent col out queue broken within
    have word : wrap64 indent = indent := wrap64_of_isWord within.after.word.1
    rw [write, word]
    simp [Doc.pieces, Piece.toText, Piece.column]
  | cut brokenText flat =>
    intro mode indent col out queue broken within
    cases mode with
    | flat =>
      have word : wrap64 (col + Text.width flat) = col + Text.width flat :=
        wrap64_of_isWord within.after.word.1
      rw [write, word]
      simp [Doc.pieces, Piece.toText, Piece.column]
    | broken =>
      have word : wrap64 indent = indent := wrap64_of_isWord within.after.word.1
      rw [write, word]
      simp [Doc.pieces, Piece.toText, Piece.column, String.append_assoc]
  | nest step doc ih =>
    intro mode indent col out queue broken within
    rw [write, wrap64_wrap64_add]
    exact ih mode (indent + step) col out queue broken within
  | group doc ih => exact follows_group ih
  | nil =>
    intro mode indent col out queue broken within
    rw [write_concat]
    simp [Pending.spread, Doc.pieces, Doc.piecesOfAll]
  | cons doc docs first later => exact follows_cons first later

theorem write_alone {width indent col : Int} {mode : Mode} {doc : Doc} (out : String)
    (within : Within width col (doc.pieces width [] mode indent col)) :
    write width out col [⟨wrap64 indent, mode, doc⟩] =
      out ++ textOf (doc.pieces width [] mode indent col) := by
  have nothing : mode = .broken → ∀ item ∈ ([] : List Pending), item.mode = .broken := by simp
  have written := follows width doc mode indent col out [] nothing within
  rw [written, write]
  rfl

/-- The renderer keeps the layout rule as long as no column overflows. -/
theorem format_eq_layout {width : Int} {doc : Doc} (within : Within width 0 (doc.layout width)) :
    doc.format width = textOf (doc.layout width) := by
  rw [← String.empty_append (s := textOf _)]
  exact write_alone "" within

def sampleDoc : Doc :=
  .concat
    [.text "f(",
     .nest 2 (.concat
       [.cut "" "",
        .group (.concat [.text "g(", .cut "" "", .text "a", .cut "," "", .text ")"]),
        .cut "," ", ",
        .group (.concat [.text "# b", .line, .cut "," " ", .text "c"])]),
     .cut "," "",
     .text ")"]

theorem format_eq_layout_sample :
    Within 7 0 (sampleDoc.layout 7) ∧ sampleDoc.format 7 = textOf (sampleDoc.layout 7) ∧
      textOf (sampleDoc.layout 7) = "f(\n  g(a),\n  # b\n   c,\n)" :=
  ⟨by decide +kernel, format_eq_layout (by decide +kernel), by decide +kernel⟩

end LetPoly.Layout
