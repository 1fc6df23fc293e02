import LetPoly.Proofs.Layout.Lines

namespace LetPoly.Layout

theorem columnAfter_mem_columns (col : Int) (pieces : List Piece) :
    columnAfter col pieces ∈ columns col pieces := by
  induction pieces generalizing col with
  | nil => exact List.mem_singleton_self col
  | cons piece pieces ih => exact List.mem_cons_of_mem col (ih (piece.column col))

theorem columns_kept {c col : Int} {chunks : List Chunk}
    (member : c ∈ columns col (chunks.map Chunk.kept)) : col ≤ c ∧ c ≤ col + flatWidth chunks := by
  induction chunks generalizing col with
  | nil => simp_all [columns]
  | cons chunk chunks ih =>
    have step : chunk.kept.column col = col + Text.width chunk.flat := by cases chunk <;> rfl
    rw [flatWidth_cons]
    rcases List.mem_cons.mp member with rfl | member
    · omega
    · have := ih member
      omega

namespace Doc

/-- The columns of a document stay between its indentation and where its last chunk would end on
    one line. -/
def Contained (doc : Doc) : Prop :=
  ∀ (width : Int) (rest : List Doc) (mode : Mode) (indent col : Int), indent ≤ col →
    ∀ c ∈ columns col (doc.pieces width rest mode indent col),
      indent ≤ c ∧ c ≤ col + flatWidth doc.chunks

variable {doc : Doc}

theorem contained_text (s : String) : (text s).Contained := by
  intro width rest mode indent col low c member
  simp only [pieces, columns, Piece.column, List.mem_cons, List.not_mem_nil, or_false] at member
  simp only [chunks, flatWidth_cons, flatWidth_nil, Chunk.flat]
  omega

theorem contained_cut (broken flat : String) : (cut broken flat).Contained := by
  intro width rest mode indent col low c member
  cases mode
  all_goals
    simp only [pieces, columns, Piece.column, List.mem_cons, List.not_mem_nil, or_false] at member
    simp only [chunks, flatWidth_cons, flatWidth_nil, Chunk.flat]
    omega

theorem Contained.group (inner : doc.Contained) : (group doc).Contained := by
  intro width rest mode indent col low c member
  rw [pieces] at member
  split at member
  · exact inner width rest .flat indent col low c member
  · exact inner width rest .broken indent col low c member

theorem contained_nil : (concat []).Contained := by
  intro width rest mode indent col low c member
  obtain rfl := List.mem_singleton.mp member
  exact ⟨low, Int.le_add_of_nonneg_right (Int.natCast_nonneg _)⟩

theorem contained_cons {docs : List Doc} (first : doc.Contained) (later : (concat docs).Contained) :
    (concat (doc :: docs)).Contained := by
  intro width rest mode indent col low c member
  rw [pieces_cons, mem_columns_append] at member
  rw [chunks_cons, flatWidth_append]
  have ends := first width (docs ++ rest) mode indent col low _
    (columnAfter_mem_columns col (doc.pieces width (docs ++ rest) mode indent col))
  rcases member with here | there
  · have := first width (docs ++ rest) mode indent col low c here
    omega
  · have := later width rest mode indent _ ends.1 c there
    omega

theorem contained_concat {docs : List Doc} (each : ∀ doc ∈ docs, doc.Contained) :
    (concat docs).Contained := by
  induction docs with
  | nil => exact contained_nil
  | cons doc docs ih =>
    obtain ⟨first, later⟩ := List.forall_mem_cons.mp each
    exact contained_cons first (ih later)

theorem Contained.within (contained : doc.Contained) {width : Int} (nonneg : 0 ≤ width)
    (word : IsWord width) (short : flatWidth doc.chunks < wordLimit) :
    Within width 0 (doc.layout width) := by
  intro c member
  have := contained.group width [] .broken 0 0 le_rfl c member
  rw [chunks] at this
  simp only [IsWord] at word ⊢
  omega

theorem Contained.format_eq (contained : doc.Contained) {width : Int} (nonneg : 0 ≤ width)
    (word : IsWord width) (short : flatWidth doc.chunks < wordLimit) :
    doc.format width = textOf (doc.layout width) := by
  have written := write_alone "" (contained.within nonneg word short)
  rw [String.empty_append] at written
  exact written

theorem Contained.nonneg (contained : doc.Contained) (width : Int) :
    ∀ c ∈ columns 0 (doc.layout width), 0 ≤ c := by
  intro c member
  exact (contained.group width [] .broken 0 0 le_rfl c member).1

end Doc

def Chunk.Short : Chunk → Prop
  | .cut broken flat => Text.width flat ≤ broken.utf8ByteSize + 1
  | .text _ | .line => True

instance : DecidablePred Chunk.Short
  | .cut broken flat => inferInstanceAs (Decidable (Text.width flat ≤ broken.utf8ByteSize + 1))
  | .text _ | .line => .isTrue trivial

theorem utf8ByteSize_newline_pos (indent : Int) : 1 ≤ (newline indent).utf8ByteSize := by
  rw [newline_eq, String.utf8ByteSize_append]
  exact Nat.le_add_right 1 _

theorem Renders.flatWidth_le {docs : List Doc} {cs : List Char} (renders : Renders docs cs)
    (short : ∀ chunk ∈ Doc.chunksOfAll docs, chunk.Short) :
    flatWidth (Doc.chunksOfAll docs) ≤ String.utf8Len cs := by
  have cons (chunk : Chunk) (chunks : List Chunk) (written rest : List Char)
      (first : Text.width chunk.flat ≤ String.utf8Len written)
      (later : flatWidth chunks ≤ String.utf8Len rest) :
      flatWidth (chunk :: chunks) ≤ String.utf8Len (written ++ rest) := by
    rw [flatWidth_cons, String.utf8Len_append]
    exact Nat.add_le_add first later
  induction renders with
  | nil => exact Nat.zero_le _
  | text s below ih =>
    have first := Text.width_le_utf8ByteSize s
    rw [← String.utf8Len_toList] at first
    exact cons (.text s) _ _ _ first (ih (List.forall_mem_cons.mp short).2)
  | line indent below ih =>
    exact cons .line _ _ _ (Nat.zero_le _) (ih (List.forall_mem_cons.mp short).2)
  | flat broken flat below ih =>
    have first := Text.width_le_utf8ByteSize flat
    rw [← String.utf8Len_toList] at first
    exact cons (.cut broken flat) _ _ _ first (ih (List.forall_mem_cons.mp short).2)
  | broken broken flat indent below ih =>
    obtain ⟨first, later⟩ := List.forall_mem_cons.mp short
    have turned := utf8ByteSize_newline_pos indent
    refine cons (.cut broken flat) _ _ _ ?_ (ih later)
    rw [String.utf8Len_append, String.utf8Len_toList, String.utf8Len_toList]
    exact Nat.le_trans first (Nat.add_le_add_left turned _)
  | nest indent below ih => exact ih short
  | group below ih => exact ih short
  | concat below ih =>
    rw [Doc.chunksOfAll_append] at ih
    exact ih short

end LetPoly.Layout
