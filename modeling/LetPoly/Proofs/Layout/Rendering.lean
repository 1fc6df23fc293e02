import LetPoly.Layout.Basic

namespace LetPoly.Layout

/-- A text that a list of documents can be written as, whatever the width: each cut is on the line
    or ends it, and a line that ends is indented in some way. -/
inductive Renders : List Doc → List Char → Prop
  | nil : Renders [] []
  | text {docs : List Doc} {rest : List Char} (s : String) (below : Renders docs rest) :
    Renders (.text s :: docs) (s.toList ++ rest)
  | line {docs : List Doc} {rest : List Char} (indent : Int) (below : Renders docs rest) :
    Renders (.line :: docs) ((newline indent).toList ++ rest)
  | flat {docs : List Doc} {rest : List Char} (broken flat : String) (below : Renders docs rest) :
    Renders (.cut broken flat :: docs) (flat.toList ++ rest)
  | broken {docs : List Doc} {rest : List Char} (broken flat : String) (indent : Int)
    (below : Renders docs rest) :
    Renders (.cut broken flat :: docs) (broken.toList ++ (newline indent).toList ++ rest)
  | nest {doc : Doc} {docs : List Doc} {cs : List Char} (indent : Int)
    (below : Renders (doc :: docs) cs) : Renders (.nest indent doc :: docs) cs
  | group {doc : Doc} {docs : List Doc} {cs : List Char} (below : Renders (doc :: docs) cs) :
    Renders (.group doc :: docs) cs
  | concat {inner docs : List Doc} {cs : List Char} (below : Renders (inner ++ docs) cs) :
    Renders (.concat inner :: docs) cs

theorem map_doc_spread (item : Pending) (docs : List Doc) (queue : List Pending) :
    (item.spread docs ++ queue).map Pending.doc = docs ++ queue.map Pending.doc := by
  simp only [Pending.spread, List.map_append, List.map_map]
  congr 1
  exact List.map_id docs

theorem write_renders (width : Int) (out : String) (col : Int) (queue : List Pending) :
    ∃ cs, Renders (queue.map Pending.doc) cs ∧
      (write width out col queue).toList = out.toList ++ cs := by
  fun_induction write width out col queue with
  | case1 out col => exact ⟨[], .nil, (List.append_nil _).symm⟩
  | case2 out col indent mode rest s ih =>
    obtain ⟨cs, renders, same⟩ := ih
    refine ⟨_, .text s renders, ?_⟩
    rw [same, String.toList_append, List.append_assoc]
  | case3 out col indent mode rest ih =>
    obtain ⟨cs, renders, same⟩ := ih
    refine ⟨_, .line indent renders, ?_⟩
    rw [same, String.toList_append, List.append_assoc]
  | case4 out col indent rest broken flat ih =>
    obtain ⟨cs, renders, same⟩ := ih
    refine ⟨_, .flat broken flat renders, ?_⟩
    rw [same, String.toList_append, List.append_assoc]
  | case5 out col indent rest broken flat ih =>
    obtain ⟨cs, renders, same⟩ := ih
    refine ⟨_, .broken broken flat indent renders, ?_⟩
    simp only [same, String.toList_append, List.append_assoc]
  | case6 out col indent mode rest step doc ih =>
    obtain ⟨cs, renders, same⟩ := ih
    exact ⟨cs, .nest step renders, same⟩
  | case7 out col indent mode rest doc flat fits ih =>
    obtain ⟨cs, renders, same⟩ := ih
    exact ⟨cs, .group renders, same⟩
  | case8 out col indent mode rest doc flat fits ih =>
    obtain ⟨cs, renders, same⟩ := ih
    exact ⟨cs, .group renders, same⟩
  | case9 out col indent mode rest docs ih =>
    obtain ⟨cs, renders, same⟩ := ih
    rw [map_doc_spread] at renders
    exact ⟨cs, .concat renders, same⟩

theorem format_renders (width : Int) (doc : Doc) : Renders [doc] (doc.format width).toList := by
  obtain ⟨cs, renders, same⟩ := write_renders width "" 0 [⟨0, .broken, .group doc⟩]
  cases renders with
  | group renders =>
    have text : (doc.format width).toList = cs := same
    exact text ▸ renders

end LetPoly.Layout
