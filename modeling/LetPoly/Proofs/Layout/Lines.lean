import LetPoly.Proofs.Layout.Reference
import LetPoly.Proofs.Lists
import LetPoly.Proofs.Text.Width
import Mathlib.Data.List.TakeWhile

namespace LetPoly.Layout

inductive Chunk.Becomes : Chunk → Piece → Prop
  | text (s : String) : Becomes (.text s) (.text s)
  | line (indent : Int) : Becomes .line (.turn "" indent)
  | stay (broken flat : String) : Becomes (.cut broken flat) (.stay flat)
  | turn (broken flat : String) (indent : Int) : Becomes (.cut broken flat) (.turn broken indent)

namespace Chunk

def isCut : Chunk → Bool
  | .cut _ _ => true
  | .text _ | .line => false

def kept : Chunk → Piece
  | .text s => .text s
  | .line => .stay ""
  | .cut _ flat => .stay flat

end Chunk

def Piece.isTurn : Piece → Bool
  | .turn _ _ => true
  | .text _ | .stay _ => false

theorem openWidth_of_text {chunks : List Chunk} (each : ∀ chunk ∈ chunks, chunk.isText = true)
    (more : List Chunk) : openWidth (chunks ++ more) = flatWidth chunks + openWidth more := by
  rw [openWidth, List.takeWhile_append_of_pos each, flatWidth_append, openWidth]

def flatText (chunks : List Chunk) : String := String.join (chunks.map Chunk.flat)

@[simp] theorem flatText_nil : flatText [] = "" := rfl

@[simp] theorem flatText_cons (chunk : Chunk) (chunks : List Chunk) :
    flatText (chunk :: chunks) = chunk.flat ++ flatText chunks := by
  simp [flatText, String.join_cons]

@[simp] theorem flatText_append (chunks more : List Chunk) :
    flatText (chunks ++ more) = flatText chunks ++ flatText more := by
  simp [flatText, String.join_append]

theorem textOf_kept (chunks : List Chunk) : textOf (chunks.map Chunk.kept) = flatText chunks := by
  rw [textOf, List.map_map, flatText]
  refine congrArg String.join (List.map_congr_left fun chunk _ => ?_)
  cases chunk <;> rfl

theorem columnAfter_kept (col : Int) (chunks : List Chunk) :
    columnAfter col (chunks.map Chunk.kept) = col + flatWidth chunks := by
  induction chunks generalizing col with
  | nil => simp
  | cons chunk chunks ih =>
    have step : chunk.kept.column col = col + Text.width chunk.flat := by cases chunk <;> rfl
    rw [List.map_cons, columnAfter_cons, ih, step, flatWidth_cons]
    omega

theorem eq_kept_of_becomes {chunks : List Chunk} {pieces : List Piece}
    (become : List.Forall₂ Chunk.Becomes chunks pieces)
    (still : ∀ piece ∈ pieces, piece.isTurn = false) : pieces = chunks.map Chunk.kept := by
  induction become with
  | nil => rfl
  | cons becomes rest ih =>
    obtain ⟨first, later⟩ := List.forall_mem_cons.mp still
    rw [List.map_cons, ← ih later]
    cases becomes with
    | text | stay => rfl
    | line | turn => cases first

namespace Doc

variable {width indent col : Int} {rest docs : List Doc} {doc : Doc}

def LineFree (doc : Doc) : Prop := .line ∉ doc.chunks

def hasCut (doc : Doc) : Bool := doc.chunks.any Chunk.isCut

@[simp] theorem hasCut_text (s : String) : (text s).hasCut = false := rfl

@[simp] theorem hasCut_nil : (concat []).hasCut = false := rfl

@[simp] theorem hasCut_cons (doc : Doc) (docs : List Doc) :
    (concat (doc :: docs)).hasCut = (doc.hasCut || (concat docs).hasCut) := by
  rw [hasCut, chunks_cons, List.any_append]
  rfl

theorem lineFree_cons : (concat (doc :: docs)).LineFree ↔ doc.LineFree ∧ (concat docs).LineFree := by
  rw [LineFree, chunks_cons, List.mem_append, not_or]
  rfl

theorem chunksOfAll_append (docs more : List Doc) :
    chunksOfAll (docs ++ more) = (concat docs).chunks ++ chunksOfAll more := by
  simp only [chunksOfAll_eq_flatMap, List.flatMap_append, chunks]

theorem extent_of_lineFree (free : doc.LineFree) (rest : List Doc) :
    doc.extent rest = flatWidth doc.chunks + openWidth (chunksOfAll rest) := by
  have all : doc.chunks.takeWhile (· ≠ .line) = doc.chunks := by
    rw [List.takeWhile_eq_self_iff]
    intro chunk member
    simp only [decide_not, Bool.not_eq_true', decide_eq_false_iff_not]
    rintro rfl
    exact free member
  rw [extent, all, if_neg free]

theorem isText_of_uncut (free : doc.LineFree) (uncut : doc.hasCut = false) :
    ∀ chunk ∈ doc.chunks, chunk.isText = true := by
  intro chunk member
  have notCut := List.any_eq_false.mp uncut chunk member
  cases chunk with
  | text s => rfl
  | line => exact absurd member free
  | cut => exact absurd rfl notCut

theorem chunks_become (width : Int) (rest : List Doc) (mode : Mode) (indent col : Int) (doc : Doc) :
    List.Forall₂ Chunk.Becomes doc.chunks (doc.pieces width rest mode indent col) := by
  induction doc generalizing rest mode indent col with
  | text s => exact .cons (.text s) .nil
  | line => exact .cons (.line indent) .nil
  | cut broken flat =>
    cases mode with
    | flat => exact .cons (.stay broken flat) .nil
    | broken => exact .cons (.turn broken flat indent) .nil
  | nest step doc ih => exact ih rest mode (indent + step) col
  | group doc ih =>
    rw [pieces]
    split
    · exact ih rest .flat indent col
    · exact ih rest .broken indent col
  | nil => exact .nil
  | cons doc docs first later =>
    exact List.rel_append (first _ mode indent col) (later rest mode indent _)

theorem pieces_flat (free : doc.LineFree) (width : Int) (rest : List Doc) (indent col : Int) :
    doc.pieces width rest .flat indent col = doc.chunks.map Chunk.kept := by
  induction doc generalizing rest indent col with
  | text s => rfl
  | line => exact absurd (List.mem_singleton_self _) free
  | cut broken flat => rfl
  | nest step doc ih => exact ih free rest (indent + step) col
  | group doc ih =>
    rw [pieces, if_pos (.inl rfl)]
    exact ih free rest indent col
  | nil => rfl
  | cons doc docs first later =>
    obtain ⟨here, there⟩ := lineFree_cons.mp free
    rw [pieces_cons, first here, later there, chunks_cons, List.map_append]

theorem fits_of_flat (free : doc.LineFree)
    (flat : Mode.broken = Mode.flat ∨ doc.extent rest ≤ width - col) :
    col + flatWidth doc.chunks + openWidth (chunksOfAll rest) ≤ width := by
  have enough := flat.resolve_left (by decide)
  rw [extent_of_lineFree free] at enough
  push_cast at enough
  omega

theorem fits_of_still (free : doc.LineFree)
    (still : ∀ piece ∈ doc.pieces width rest .broken indent col, piece.isTurn = false)
    (cut : doc.hasCut = true) :
    col + flatWidth doc.chunks + openWidth (chunksOfAll rest) ≤ width := by
  induction doc generalizing rest indent col with
  | text | line | nil => cases cut
  | cut broken flat => exact absurd (still _ (List.mem_singleton_self _)) (by simp [Piece.isTurn])
  | nest step doc ih => exact ih free still cut
  | group doc ih =>
    rw [pieces] at still
    split at still
    case isTrue flat => exact fits_of_flat free flat
    case isFalse => exact ih free still cut
  | cons doc docs first later =>
    obtain ⟨freeHere, freeThere⟩ := lineFree_cons.mp free
    rw [pieces_cons, List.forall_mem_append] at still
    obtain ⟨here, there⟩ := still
    rw [eq_kept_of_becomes (chunks_become width _ .broken indent col doc) here,
      columnAfter_kept] at there
    rw [chunks_cons, flatWidth_append, Int.natCast_add]
    -- the last cut decides: all that stands behind it is text
    cases behind : (concat docs).hasCut with
    | true =>
      have := later freeThere there behind
      omega
    | false =>
      have inside : doc.hasCut = true := by simpa [behind] using cut
      have := first freeHere here inside
      rw [chunksOfAll_append, openWidth_of_text (isText_of_uncut freeThere behind),
        Int.natCast_add] at this
      omega

/-- No line of a layout ends exactly if the document fits or has no cut. -/
theorem still_iff (free : doc.LineFree) (width : Int) :
    (∀ piece ∈ doc.layout width, piece.isTurn = false) ↔
      flatWidth doc.chunks ≤ width ∨ doc.hasCut = false := by
  have whole : (group doc).LineFree := free
  constructor
  · intro still
    cases cut : doc.hasCut with
    | true =>
      have := fits_of_still whole still cut
      simp only [chunks, chunksOfAll, openWidth_nil] at this
      left
      omega
    | false => exact .inr rfl
  · rintro (fits | uncut) piece member
    · have flat : doc.layout width = doc.chunks.map Chunk.kept := by
        have enough : doc.extent [] ≤ width - 0 := by
          rw [extent_of_lineFree free, chunksOfAll, openWidth_nil]
          omega
        rw [layout, pieces, if_pos (.inr enough), pieces_flat free]
      rw [flat] at member
      obtain ⟨chunk, -, rfl⟩ := List.mem_map.mp member
      cases chunk <;> rfl
    · have become := chunks_become width [] .broken 0 0 (group doc)
      obtain ⟨chunk, inside, becomes⟩ := exists_of_forall₂ become member
      have text := isText_of_uncut whole uncut chunk inside
      cases becomes with
      | text => rfl
      | line | stay | turn => cases text

end Doc

/-- Every line on which a cut has stayed ends within the width, before what the cut that ends it
    leaves there. -/
def Snug (width : Int) (stayed : Bool) (col : Int) : List Piece → Prop
  | [] => stayed = true → col ≤ width
  | .text s :: pieces => Snug width stayed (col + Text.width s) pieces
  | .stay flat :: pieces => Snug width true (col + Text.width flat) pieces
  | .turn _ indent :: pieces => (stayed = true → col ≤ width) ∧ Snug width false indent pieces

theorem snug_kept {width col : Int} {chunks : List Chunk} {more : List Piece} {stayed : Bool}
    (behind : ∀ stayed, Snug width stayed (col + flatWidth chunks) more) :
    Snug width stayed col (chunks.map Chunk.kept ++ more) := by
  induction chunks generalizing col stayed with
  | nil => simpa using behind stayed
  | cons chunk chunks ih =>
    have step : ∀ stayed, Snug width stayed (col + Text.width chunk.flat + flatWidth chunks) more := by
      intro stayed
      have := behind stayed
      rwa [flatWidth_cons, Int.natCast_add, ← Int.add_assoc] at this
    cases chunk with
    | text s => exact ih step
    | line => exact ih step
    | cut broken flat => exact ih step

namespace Doc

variable {width indent col : Int} {rest : List Doc} {doc : Doc} {stayed : Bool} {more : List Piece}

theorem pieces_snug (free : doc.LineFree)
    (room : stayed = true → col + openWidth (doc.chunks ++ chunksOfAll rest) ≤ width)
    (behind : ∀ stayed' : Bool,
      (stayed' = true → columnAfter col (doc.pieces width rest .broken indent col) +
        openWidth (chunksOfAll rest) ≤ width) →
      Snug width stayed' (columnAfter col (doc.pieces width rest .broken indent col)) more) :
    Snug width stayed col (doc.pieces width rest .broken indent col ++ more) := by
  induction doc generalizing rest indent col stayed more with
  | text s =>
    apply behind
    intro kept
    have := room kept
    simp only [chunks, List.singleton_append, openWidth_text] at this
    simp only [pieces, columnAfter_cons, columnAfter_nil, Piece.column]
    push_cast at this
    omega
  | line => exact absurd (List.mem_singleton_self _) free
  | cut broken flat =>
    refine ⟨?_, behind false (by simp)⟩
    simpa [chunks] using room
  | nest step doc ih => exact ih free room behind
  | group doc ih =>
    have inner : doc.LineFree := free
    rw [pieces] at behind ⊢
    split at behind
    case isTrue flat =>
      rw [if_pos flat, pieces_flat inner]
      rw [pieces_flat inner, columnAfter_kept] at behind
      exact snug_kept fun stayed' => behind stayed' fun _ => fits_of_flat inner flat
    case isFalse broken =>
      rw [if_neg broken]
      exact ih free room behind
  | nil => exact behind stayed room
  | cons doc docs first later =>
    obtain ⟨here, there⟩ := lineFree_cons.mp free
    rw [chunks_cons, List.append_assoc, ← chunksOfAll_append] at room
    rw [pieces_cons, columnAfter_append] at behind
    rw [pieces_cons, List.append_assoc]
    refine first here room fun stayed' enough => ?_
    rw [chunksOfAll_append] at enough
    exact later there enough behind

theorem layout_snug (free : doc.LineFree) (width : Int) :
    Snug width false 0 (doc.layout width) := by
  have whole : (group doc).LineFree := free
  have snug : Snug width false 0 ((group doc).pieces width [] .broken 0 0 ++ []) := by
    apply pieces_snug whole
    · intro stayed
      exact absurd stayed Bool.false_ne_true
    · intro stayed' room stayed
      have := room stayed
      rwa [chunksOfAll, openWidth_nil, Int.natCast_zero, Int.add_zero] at this
  rwa [List.append_nil] at snug

end Doc

structure Line where
  written : String
  stayed : Bool
  closing : String
deriving DecidableEq

def Line.text (line : Line) : String := line.written ++ line.closing

def blanks (indent : Int) : String := String.ofList (List.replicate indent.toNat ' ')

def linesFrom (written : String) (stayed : Bool) : List Piece → List Line
  | [] => [⟨written, stayed, ""⟩]
  | .text s :: pieces => linesFrom (written ++ s) stayed pieces
  | .stay flat :: pieces => linesFrom (written ++ flat) true pieces
  | .turn broken indent :: pieces =>
    ⟨written, stayed, broken⟩ :: linesFrom (blanks indent) false pieces

def Doc.lines (width : Int) (doc : Doc) : List Line := linesFrom "" false (doc.layout width)

def Chunk.Clean : Chunk → Prop
  | .text s => '\n' ∉ s.toList
  | .line => True
  | .cut broken flat => '\n' ∉ broken.toList ∧ '\n' ∉ flat.toList

instance : DecidablePred Chunk.Clean
  | .text s => inferInstanceAs (Decidable ('\n' ∉ s.toList))
  | .line => .isTrue trivial
  | .cut broken flat => inferInstanceAs (Decidable ('\n' ∉ broken.toList ∧ '\n' ∉ flat.toList))

section Lines

variable {chunks : List Chunk} {pieces : List Piece} {written : String} {stayed : Bool}
  {line : Line}

theorem newline_eq (indent : Int) : newline indent = "\n" ++ blanks indent := by
  simp [newline, blanks]

theorem newline_notMem_blanks (indent : Int) : '\n' ∉ (blanks indent).toList := by
  rw [blanks, String.toList_ofList, List.mem_replicate]
  rintro ⟨-, blank⟩
  exact absurd blank (by decide)

theorem width_blanks_le (indent : Int) : Text.width (blanks indent) ≤ indent.toNat := by
  have bytes : ∀ n, String.utf8Len (List.replicate n ' ') = n := by
    intro n
    induction n with
    | zero => rfl
    | succ n ih => rw [List.replicate_succ, String.utf8Len_cons, ih]; rfl
  have := Text.width_le_utf8ByteSize (blanks indent)
  rwa [blanks, String.utf8ByteSize_ofList, bytes] at this

theorem linesFrom_ne_nil (written : String) (stayed : Bool) (pieces : List Piece) :
    linesFrom written stayed pieces ≠ [] := by
  fun_induction linesFrom written stayed pieces with
  | case1 | case4 => exact List.cons_ne_nil _ _
  | case2 written stayed s pieces ih => exact ih
  | case3 written stayed flat pieces ih => exact ih

theorem textOf_eq_lines (written : String) (stayed : Bool) (pieces : List Piece) :
    written ++ textOf pieces = "\n".intercalate ((linesFrom written stayed pieces).map Line.text) := by
  fun_induction linesFrom written stayed pieces with
  | case1 written stayed => simp [Line.text]
  | case2 written stayed s pieces ih =>
    rw [← ih, textOf_cons, String.append_assoc]
    rfl
  | case3 written stayed flat pieces ih =>
    rw [← ih, textOf_cons, String.append_assoc]
    rfl
  | case4 written stayed broken indent pieces ih =>
    have later : (linesFrom (blanks indent) false pieces).map Line.text ≠ [] := by
      simpa using linesFrom_ne_nil (blanks indent) false pieces
    rw [List.map_cons, String.intercalate_cons_of_ne_nil later, ← ih, textOf_cons, Piece.toText,
      newline_eq, Line.text]
    simp only [String.append_assoc]

theorem closing_of_mem_lines (member : line ∈ linesFrom written stayed pieces) :
    line.closing = "" ∨ ∃ indent, .turn line.closing indent ∈ pieces := by
  fun_induction linesFrom written stayed pieces with
  | case1 written stayed =>
    rw [List.mem_singleton.mp member]
    exact .inl rfl
  | case2 written stayed s pieces ih => grind
  | case3 written stayed flat pieces ih => grind
  | case4 written stayed broken indent pieces ih =>
    rcases List.mem_cons.mp member with rfl | member
    · exact .inr ⟨indent, List.mem_cons_self⟩
    · grind

theorem lines_clean (become : List.Forall₂ Chunk.Becomes chunks pieces)
    (clean : ∀ chunk ∈ chunks, chunk.Clean) (begun : '\n' ∉ written.toList)
    (member : line ∈ linesFrom written stayed pieces) : '\n' ∉ line.text.toList := by
  induction become generalizing written stayed with
  | nil =>
    rw [List.mem_singleton.mp member]
    simpa [Line.text] using begun
  | cons becomes rest ih =>
    obtain ⟨first, later⟩ := List.forall_mem_cons.mp clean
    cases becomes with
    | text s =>
      refine ih later ?_ member
      simpa [begun, Chunk.Clean] using first
    | line indent =>
      rcases List.mem_cons.mp member with rfl | member
      · simpa [Line.text] using begun
      · exact ih later (newline_notMem_blanks indent) member
    | stay broken flat =>
      refine ih later ?_ member
      simpa [begun] using first.2
    | turn broken flat indent =>
      rcases List.mem_cons.mp member with rfl | member
      · simpa [Line.text, begun] using first.1
      · exact ih later (newline_notMem_blanks indent) member

theorem newline_mem_textOf (become : List.Forall₂ Chunk.Becomes chunks pieces)
    (clean : ∀ chunk ∈ chunks, chunk.Clean) :
    '\n' ∈ (textOf pieces).toList ↔ ∃ piece ∈ pieces, piece.isTurn = true := by
  induction become with
  | nil => simp
  | cons becomes rest ih =>
    obtain ⟨first, later⟩ := List.forall_mem_cons.mp clean
    simp only [textOf_cons, String.toList_append, List.mem_append, ih later, List.mem_cons,
      exists_eq_or_imp]
    refine or_congr ?_ Iff.rfl
    cases becomes with
    | text s => simpa [Piece.toText, Piece.isTurn, Chunk.Clean] using first
    | stay broken flat => simpa [Piece.toText, Piece.isTurn] using first.2
    | line | turn => simp [Piece.toText, Piece.isTurn, newline]

theorem width_le_of_snug {width col : Int} (snug : Snug width stayed col pieces)
    (begun : Text.width written ≤ col) (inside : ∀ c ∈ columns col pieces, 0 ≤ c)
    (member : line ∈ linesFrom written stayed pieces) (kept : line.stayed = true) :
    Text.width line.written ≤ width := by
  induction pieces generalizing written stayed col with
  | nil =>
    rw [List.mem_singleton.mp member] at kept ⊢
    have := snug kept
    dsimp only
    omega
  | cons piece pieces ih =>
    have later : ∀ c ∈ columns (piece.column col) pieces, 0 ≤ c := by
      intro c member
      exact inside c (List.mem_cons_of_mem col member)
    cases piece with
    | text s =>
      have := Text.width_append_le written s
      exact ih snug (by omega) later member
    | stay flat =>
      have := Text.width_append_le written flat
      exact ih snug (by omega) later member
    | turn broken indent =>
      rcases List.mem_cons.mp member with rfl | member
      · have := snug.1 kept
        dsimp only
        omega
      · have := width_blanks_le indent
        have := later indent (col_mem_columns indent pieces)
        exact ih snug.2 (by omega) later member

end Lines

end LetPoly.Layout
