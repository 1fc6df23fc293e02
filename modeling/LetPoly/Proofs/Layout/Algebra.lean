import LetPoly.Proofs.Layout.Reference

namespace LetPoly.Layout

namespace Doc

inductive Context
  | hole
  | nest (indent : Int) (inner : Context)
  | group (inner : Context)
  | concat (before : List Doc) (inner : Context) (after : List Doc)

def Context.fill (doc : Doc) : Context → Doc
  | .hole => doc
  | .nest indent inner => .nest indent (inner.fill doc)
  | .group inner => .group (inner.fill doc)
  | .concat before inner after => .concat (before ++ inner.fill doc :: after)

/-- The two sides of each law. Indentation is a signed word, so two of them add up with wrapping. -/
inductive Law : Doc → Doc → Prop
  | assoc (before middle after : List Doc) :
    Law (concat (concat (before ++ middle) :: after)) (concat (before ++ [concat (middle ++ after)]))
  | single (doc : Doc) : Law (concat [doc]) doc
  | nil_left (doc : Doc) : Law (concat [nil, doc]) doc
  | nil_right (doc : Doc) : Law (concat [doc, nil]) doc
  | group_group (doc : Doc) : Law (group (group doc)) (group doc)
  | nest_nest (i j : Int) (doc : Doc) : Law (nest i (nest j doc)) (nest (wrap64 (i + j)) doc)
  | nest_zero (doc : Doc) : Law (nest 0 doc) doc
  | nest_group (i : Int) (doc : Doc) : Law (nest i (group doc)) (group (nest i doc))
  | nest_concat (i : Int) (docs : List Doc) : Law (nest i (concat docs)) (concat (docs.map (nest i)))

end Doc

variable {width : Int} {x y doc : Doc} {queue queue' queue'' : List Pending}

theorem fits_congr (ahead : upcoming queue = upcoming queue') (room : Int) :
    fits room queue = fits room queue' := by
  rw [Bool.eq_iff_iff, fits_iff, fits_iff, ahead]

/-- Two queues that are written alike from every column on, and that look alike to the groups in
    front of them. -/
structure Alike (width : Int) (queue queue' : List Pending) : Prop where
  ahead : upcoming queue = upcoming queue'
  write : ∀ out col, write width out col queue = Layout.write width out col queue'

namespace Alike

theorem cons (alike : Alike width queue queue') (indent : Int) (mode : Mode) (doc : Doc) :
    Alike width (⟨indent, mode, doc⟩ :: queue) (⟨indent, mode, doc⟩ :: queue') := by
  refine ⟨by rw [upcoming_cons, upcoming_cons, alike.ahead], ?_⟩
  induction doc generalizing indent mode queue queue' with
  | text s =>
    intro out col
    simp only [Layout.write, alike.write]
  | line =>
    intro out col
    simp only [Layout.write, alike.write]
  | cut broken flat =>
    intro out col
    cases mode <;> simp only [Layout.write, alike.write]
  | nest step doc ih =>
    intro out col
    simp only [Layout.write, ih alike]
  | group doc ih =>
    intro out col
    -- the look ahead goes on into the queue behind the group
    have decided (room : Int) : fits room (⟨indent, .flat, doc⟩ :: queue) =
        fits room (⟨indent, .flat, doc⟩ :: queue') :=
      fits_congr (by rw [upcoming_cons, upcoming_cons, alike.ahead]) room
    simp only [Layout.write, decided, ih alike]
  | nil =>
    intro out col
    rw [write_concat, write_concat]
    exact alike.write out col
  | cons doc docs first later =>
    intro out col
    have behind : Alike width (Pending.spread ⟨indent, mode, .nil⟩ docs ++ queue)
        (Pending.spread ⟨indent, mode, .nil⟩ docs ++ queue') := by
      refine ⟨by rw [upcoming_spread, upcoming_spread, alike.ahead], fun out col => ?_⟩
      rw [← write_concat, ← write_concat]
      exact later alike indent mode out col
    rw [write_concat, write_concat]
    exact first behind indent mode out col

theorem append (alike : Alike width queue queue') (front : List Pending) :
    Alike width (front ++ queue) (front ++ queue') := by
  induction front with
  | nil => exact alike
  | cons item front ih => exact ih.cons item.indent item.mode item.doc

theorem trans (first : Alike width queue queue') (second : Alike width queue' queue'') :
    Alike width queue queue'' :=
  ⟨first.ahead.trans second.ahead, fun out col => (first.write out col).trans (second.write out col)⟩

theorem spread (width indent : Int) (mode : Mode) (docs : List Doc) (queue : List Pending) :
    Alike width (⟨indent, mode, .concat docs⟩ :: queue)
      (Pending.spread ⟨indent, mode, .nil⟩ docs ++ queue) := by
  refine ⟨?_, fun out col => write_concat ..⟩
  rw [upcoming_cons, upcoming_spread]
  rfl

theorem spread_nest (width indent step : Int) (mode : Mode) (docs : List Doc) (queue : List Pending) :
    Alike width (Pending.spread ⟨wrap64 (indent + step), mode, .nil⟩ docs ++ queue)
      (Pending.spread ⟨indent, mode, .nil⟩ (docs.map (.nest step)) ++ queue) := by
  induction docs with
  | nil => exact ⟨rfl, fun _ _ => rfl⟩
  | cons doc docs ih =>
    refine (ih.cons (wrap64 (indent + step)) mode doc).trans ⟨rfl, fun out col => ?_⟩
    simp only [Pending.spread, List.map_cons, List.cons_append, Layout.write]

end Alike

/-- The documents are written alike wherever they wait, and what is behind them with them. -/
structure Doc.Same (x y : Doc) : Prop where
  chunks : x.chunks = y.chunks
  write : ∀ (width indent : Int) (mode : Mode) (queue : List Pending) (out : String) (col : Int),
    write width out col (⟨wrap64 indent, mode, x⟩ :: queue) =
      Layout.write width out col (⟨wrap64 indent, mode, y⟩ :: queue)

namespace Doc.Same

theorem alike (same : Same x y) (width indent : Int) (mode : Mode) (queue : List Pending) :
    Alike width (⟨wrap64 indent, mode, x⟩ :: queue) (⟨wrap64 indent, mode, y⟩ :: queue) :=
  ⟨by rw [upcoming_cons, upcoming_cons, same.chunks], same.write width indent mode queue⟩

theorem nest (same : Same x y) (step : Int) : Same (.nest step x) (.nest step y) := by
  refine ⟨same.chunks, fun width indent mode queue out col => ?_⟩
  simp only [Layout.write]
  exact same.write width _ mode queue out col

theorem group (same : Same x y) : Same (.group x) (.group y) := by
  refine ⟨same.chunks, fun width indent mode queue out col => ?_⟩
  have decided := fits_congr (same.alike width indent .flat queue).ahead
  simp only [Layout.write, decided, same.write]

theorem concat (same : Same x y) (before after : List Doc) :
    Same (.concat (before ++ x :: after)) (.concat (before ++ y :: after)) := by
  refine ⟨?_, fun width indent mode queue out col => ?_⟩
  · simp [Doc.chunks, chunksOfAll_eq_flatMap, same.chunks]
  · let item : Pending := ⟨wrap64 indent, mode, .nil⟩
    have behind := (same.alike width indent mode (item.spread after ++ queue)).append (item.spread before)
    simpa [write_concat, Pending.spread, item] using behind.write out col

theorem fill (same : Same x y) (context : Context) : Same (context.fill x) (context.fill y) := by
  induction context with
  | hole => exact same
  | nest indent inner ih => exact ih.nest indent
  | group inner ih => exact ih.group
  | concat before inner after ih => exact ih.concat before after

theorem format_eq (same : Same (.group x) (.group y)) (width : Int) :
    x.format width = y.format width :=
  same.write width 0 .broken [] "" 0

end Doc.Same

namespace Doc

theorem same_assoc (before middle after : List Doc) :
    Same (concat (concat (before ++ middle) :: after))
      (concat (before ++ [concat (middle ++ after)])) := by
  refine ⟨by simp [chunks, chunksOfAll_eq_flatMap], fun width indent mode queue out col => ?_⟩
  have later := (Alike.spread width (wrap64 indent) mode (middle ++ after) queue).append
    (Pending.spread ⟨wrap64 indent, mode, .nil⟩ before)
  simp only [Pending.spread, List.map_append, List.append_assoc] at later
  simp only [write_concat, Pending.spread, List.map_append, List.map_cons, List.map_nil,
    List.cons_append, List.append_assoc, List.nil_append]
  exact (later.write out col).symm

theorem same_single (doc : Doc) : Same (concat [doc]) doc := by
  refine ⟨by simp [chunks, chunksOfAll], fun width indent mode queue out col => ?_⟩
  rw [write_concat]
  rfl

theorem same_nil_left (doc : Doc) : Same (concat [nil, doc]) doc := by
  refine ⟨by simp [chunks, chunksOfAll, nil], fun width indent mode queue out col => ?_⟩
  rw [write_concat]
  exact write_concat width out col (wrap64 indent) mode [] (⟨wrap64 indent, mode, doc⟩ :: queue)

theorem same_nil_right (doc : Doc) : Same (concat [doc, nil]) doc := by
  refine ⟨by simp [chunks, chunksOfAll, nil], fun width indent mode queue out col => ?_⟩
  rw [write_concat]
  exact ((Alike.spread width (wrap64 indent) mode [] queue).cons _ _ doc).write out col

theorem same_group_group (doc : Doc) : Same (group (group doc)) (group doc) := by
  refine ⟨rfl, fun width indent mode queue out col => ?_⟩
  -- the look ahead goes through a group as if it were not there
  have decided (room : Int) : fits room (⟨wrap64 indent, .flat, group doc⟩ :: queue) =
      fits room (⟨wrap64 indent, .flat, doc⟩ :: queue) :=
    fits_congr (by rfl) room
  cases mode with
  | flat => simp only [write, decide_true, Bool.true_or, if_true]
  | broken =>
    simp only [write, decided]
    cases fits (wrap64 (width - col)) (⟨wrap64 indent, .flat, doc⟩ :: queue) with
    | true => simp
    | false => simp

theorem same_nest_nest (i j : Int) (doc : Doc) :
    Same (nest i (nest j doc)) (nest (wrap64 (i + j)) doc) := by
  refine ⟨rfl, fun width indent mode queue out col => ?_⟩
  have steps : wrap64 (wrap64 (wrap64 indent + i) + j) = wrap64 (wrap64 indent + wrap64 (i + j)) := by
    calc wrap64 (wrap64 (wrap64 indent + i) + j)
      _ = wrap64 (i + j + wrap64 indent) := by rw [wrap64_wrap64_add, Int.add_assoc, Int.add_comm]
      _ = wrap64 (wrap64 (i + j) + wrap64 indent) := (wrap64_wrap64_add _ _).symm
      _ = wrap64 (wrap64 indent + wrap64 (i + j)) := by rw [Int.add_comm]
  simp only [write, steps]

theorem same_nest_zero (doc : Doc) : Same (nest 0 doc) doc := by
  refine ⟨rfl, fun width indent mode queue out col => ?_⟩
  have still : wrap64 (wrap64 indent + 0) = wrap64 indent := by rw [wrap64_wrap64_add, Int.add_zero]
  simp only [write, still]

theorem same_nest_group (i : Int) (doc : Doc) : Same (nest i (group doc)) (group (nest i doc)) := by
  refine ⟨rfl, fun width indent mode queue out col => ?_⟩
  have decided (room : Int) : fits room (⟨wrap64 indent, .flat, nest i doc⟩ :: queue) =
      fits room (⟨wrap64 (wrap64 indent + i), .flat, doc⟩ :: queue) :=
    fits_congr (by rfl) room
  simp only [write, decided]

theorem same_nest_concat (i : Int) (docs : List Doc) :
    Same (nest i (concat docs)) (concat (docs.map (nest i))) := by
  refine ⟨?_, fun width indent mode queue out col => ?_⟩
  · simp [chunks, chunksOfAll_eq_flatMap, List.flatMap_map]
  · simp only [write, write_concat]
    exact ((Alike.spread_nest width (wrap64 indent) i mode docs queue).write out col)

theorem Law.same (law : Law x y) : Same x y := by
  cases law with
  | assoc before middle after => exact same_assoc before middle after
  | single => exact same_single y
  | nil_left => exact same_nil_left y
  | nil_right => exact same_nil_right y
  | group_group doc => exact same_group_group doc
  | nest_nest i j doc => exact same_nest_nest i j doc
  | nest_zero => exact same_nest_zero y
  | nest_group i doc => exact same_nest_group i doc
  | nest_concat i docs => exact same_nest_concat i docs

/-- The laws of documents hold at every width and wherever a document stands: inside a group that is
    decided, behind one whose look ahead comes to it, and below other indentation. A group around the
    whole document makes no difference. -/
theorem format_algebra (width : Int) :
    (∀ (context : Context) (x y : Doc), Law x y →
      (context.fill x).format width = (context.fill y).format width) ∧
    ∀ doc : Doc, (group doc).format width = doc.format width := by
  refine ⟨fun context x y law => ?_, fun doc => ?_⟩
  · exact (law.same.fill (.group context)).format_eq width
  · exact (same_group_group doc).format_eq width

def sampleContext : Context :=
  .nest 1 (.concat [.group (.concat [text "f", cut "," " "]), text "g"] (.group .hole) [text "h", line])

theorem format_algebra_sample :
    let parts := [text "a", cut "," " "]
    Law (concat (concat (parts ++ parts) :: parts)) (concat (parts ++ [concat (parts ++ parts)])) ∧
    (sampleContext.fill (concat (concat (parts ++ parts) :: parts))).format 6 =
      (sampleContext.fill (concat (parts ++ [concat (parts ++ parts)]))).format 6 ∧
    (sampleContext.fill (concat (concat (parts ++ parts) :: parts))).format 6 =
      "f ga,\n a,\n a,\n h\n " := by
  intro parts
  have law : Law (concat (concat (parts ++ parts) :: parts))
      (concat (parts ++ [concat (parts ++ parts)])) := .assoc parts parts parts
  exact ⟨law, (format_algebra 6).1 sampleContext _ _ law, by decide +kernel⟩

end Doc

end LetPoly.Layout
