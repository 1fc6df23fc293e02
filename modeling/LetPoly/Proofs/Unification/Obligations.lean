import LetPoly.Proofs.Surface
import LetPoly.Unification

namespace LetPoly

def Head.Distinct : Head → Prop
  | .record labels | .signature labels => labels.Nodup
  | _ => True

instance : (head : Head) → Decidable head.Distinct
  | .record labels | .signature labels => inferInstanceAs (Decidable labels.Nodup)
  | .const _ | .app _ | .tuple | .fn => isTrue True.intro

theorem Head.arrange_eq_surface {α : Type} {head : Head} (distinct : head.Distinct)
    (args : List (Term α)) : head.arrange args = head.surface args := by
  have shown (labels : List String) (distinct : labels.Nodup) :
      leftmost (labels.zip args) = labels.zip args := by
    exact leftmost_eq_self (distinct.sublist (labels_zip_sublist labels args))
  cases head with
  | record labels | signature labels => simp only [arrange, surface, shown labels distinct]
  | const | app | tuple | fn => rfl

def Ty.Present (t : Ty) : Prop := ∀ mark, .missing mark ∉ t.leaves

theorem Ty.Present.part {t part : Ty} {head : Head} {parts : List Ty} (present : t.Present)
    (top : t.node? = some (head, parts)) (member : part ∈ parts) : part.Present :=
  fun mark inside => present mark (Ty.leaves_part_subset top member inside)

theorem Ty.Present.not_missing {t : Ty} (present : t.Present) : t.isMissing ≠ true := by
  intro missing
  cases t with
  | missing mark => exact present mark (by simp [Ty.leaves])
  | _ => cases missing

/-- Nothing is missing in the type, and no label occurs twice in a row of it. -/
structure Ty.Regular (t : Ty) : Prop where
  present : t.Present
  distinct : ∀ head ∈ t.tree.heads, head.Distinct

theorem Ty.Regular.part {t part : Ty} {head : Head} {parts : List Ty} (regular : t.Regular)
    (top : t.node? = some (head, parts)) (member : part ∈ parts) : part.Regular := by
  refine ⟨regular.present.part top member, fun below inside => ?_⟩
  apply regular.distinct below
  rw [Ty.tree_of_node top, Term.heads_node, List.flatMap_map]
  exact List.mem_cons_of_mem _ (List.mem_flatMap.mpr ⟨part, member, inside⟩)

theorem Ty.Regular.head {t : Ty} {head : Head} {parts : List Ty} (regular : t.Regular)
    (top : t.node? = some (head, parts)) : head.Distinct := by
  apply regular.distinct head
  rw [Ty.tree_of_node top, Term.heads_node]
  exact List.mem_cons_self

theorem Ty.Regular.ne_missing {t : Ty} (regular : t.Regular) (mark : Nat) : t ≠ .missing mark := by
  rintro rfl
  exact regular.present mark (by simp [Ty.leaves])

theorem Ty.Regular.not_missing {t : Ty} (regular : t.Regular) : t.isMissing ≠ true :=
  Ty.Present.not_missing regular.present

namespace Obligation

variable {s : Store} {θ : Substitution}

def Holds (s : Store) (θ : Substitution) : Obligation → Prop
  | .equal a b => s.reading θ a = s.reading θ b
  | .clash | .fault _ => False

@[simp] theorem holds_equal (a b : Ty) :
    (equal a b).Holds s θ ↔ s.reading θ a = s.reading θ b := Iff.rfl

@[simp] theorem holds_clash : clash.Holds s θ ↔ False := Iff.rfl

@[simp] theorem holds_fault (f : Fault) : (fault f).Holds s θ ↔ False := Iff.rfl

theorem mem_of_mem_insertInto {label : String} {value : Ty} {entries : List (String × Ty)}
    {field : String × Ty} (member : field ∈ Index.insertInto label value entries) :
    field = (label, value) ∨ field ∈ entries := by
  induction entries with
  | nil => exact .inl (List.mem_singleton.mp member)
  | cons entry rest ih =>
    simp only [Index.insertInto] at member
    split at member
    · exact List.mem_cons.mp member
    · split at member
      · rcases List.mem_cons.mp member with same | member
        · exact .inl same
        · exact .inr (List.mem_cons_of_mem _ member)
      · rcases List.mem_cons.mp member with same | member
        · exact .inr (same ▸ List.mem_cons_self)
        · rcases ih member with same | member
          · exact .inl same
          · exact .inr (List.mem_cons_of_mem _ member)

theorem mem_of_mem_fields {row : Row} {field : String × Ty} (member : field ∈ (Row.fields row).entries) :
    field ∈ row := by
  induction row with
  | nil => cases member
  | cons first row ih =>
    rcases mem_of_mem_insertInto member with same | member
    · exact same ▸ List.mem_cons_self
    · exact List.mem_cons_of_mem _ (ih member)

theorem mem_of_get? {row : Row} {label : String} {t : Ty}
    (found : (Row.fields row).get? label = some t) : t ∈ row.map Prod.snd := by
  obtain ⟨before, after, split, -⟩ := List.lookup_eq_some_iff.mp found
  have member : (label, t) ∈ (Row.fields row).entries := by
    rw [split]
    exact List.mem_append_right before List.mem_cons_self
  exact List.mem_map_of_mem (mem_of_mem_fields member)

def Agrees {β : Type} (read : Ty → β) : Obligation → Prop
  | .equal a b => read a = read b
  | .clash | .fault _ => False

@[simp] theorem agrees_equal {β : Type} {read : Ty → β} (a b : Ty) :
    (equal a b).Agrees read ↔ read a = read b := Iff.rfl

@[simp] theorem agrees_clash {β : Type} {read : Ty → β} : clash.Agrees read ↔ False := Iff.rfl

@[simp] theorem agrees_fault {β : Type} {read : Ty → β} (f : Fault) :
    (fault f).Agrees read ↔ False := Iff.rfl

theorem holds_iff_agrees (o : Obligation) : o.Holds s θ ↔ o.Agrees (s.reading θ) := by
  cases o <;> exact Iff.rfl

section Agreement

variable {β : Type} {read : Ty → β}

theorem ofLists_agrees (as bs : List Ty) :
    (∀ o ∈ ofLists as bs, o.Agrees read) ↔ as.map read = bs.map read := by
  unfold ofLists
  split
  · rename_i length
    induction as generalizing bs with
    | nil => simp [List.length_eq_zero_iff.mp length.symm]
    | cons a as ih =>
      cases bs with
      | nil => simp at length
      | cons b bs =>
        rw [List.zipWith_cons_cons, List.forall_mem_cons, ih bs (by simpa using length)]
        simp
  · rename_i length
    simp only [List.mem_singleton, forall_eq, agrees_clash, false_iff]
    intro same
    exact length (by simpa using congrArg List.length same)

theorem ofField_agrees {other : Index Ty} {label : String} {t : Ty} (present : t.isMissing ≠ true)
    (presentIn : ∀ u, other.get? label = some u → u.isMissing ≠ true) :
    (ofField other (label, t)).Agrees read ↔ (other.get? label).map read = some (read t) := by
  unfold ofField
  split
  · rename_i same
    cases same
    exact absurd rfl present
  · rename_i same
    cases same
    split
    · rename_i found
      simp [found]
    · rename_i found
      exact absurd rfl (presentIn _ found)
    · rename_i found
      simp [found, eq_comm]

theorem marks_eq_nil {row : Row} (present : ∀ t ∈ row.map Prod.snd, t.isMissing ≠ true) :
    Row.marks row = [] := by
  unfold Row.marks
  rw [List.filterMap_eq_nil_iff]
  rintro ⟨label, t⟩ member
  have present := present t (List.mem_map_of_mem member)
  cases t with
  | missing mark => exact absurd rfl present
  | _ => rfl

theorem mem_entries_iff {row : Row} {label : String} {t : Ty} :
    (label, t) ∈ (Row.fields row).entries ↔ row.lookup label = some t := by
  have holds := Index.ofList_holds row
  rw [← holds.get?]
  exact (lookup_eq_some_iff holds.distinct).symm

theorem ofRows_agrees {a b : Row} (ha : ∀ t ∈ a.map Prod.snd, t.isMissing ≠ true)
    (hb : ∀ t ∈ b.map Prod.snd, t.isMissing ≠ true) :
    (∀ o ∈ ofRows a b, o.Agrees read) ↔
      ∀ label, (a.lookup label).map read = (b.lookup label).map read := by
  have holdsA : (Row.fields a).Holds fun label => a.lookup label := Index.ofList_holds a
  have holdsB : (Row.fields b).Holds fun label => b.lookup label := Index.ofList_holds b
  have entry {label : String} {t : Ty} (inside : (label, t) ∈ a) :
      (ofField (Row.fields b) (label, t)).Agrees read ↔ (b.lookup label).map read = some (read t) := by
    rw [← holdsB.get?]
    exact ofField_agrees (ha t (List.mem_map_of_mem inside)) fun u found => hb u (mem_of_get? found)
  rw [ofRows, marks_eq_nil ha]
  simp only [List.any_nil, Bool.false_eq_true, if_false]
  split
  · rename_i size
    rw [List.forall_mem_map]
    constructor
    · intro all label
      have found : ∀ {label t}, a.lookup label = some t → (b.lookup label).map read = some (read t) := by
        intro label t here
        have inside := mem_entries_iff.mpr here
        exact (entry (mem_of_mem_fields inside)).mp (all _ inside)
      -- every label of the one row occurs in the other, which has no more of them
      have subset : (Row.fields a).names ⊆ (Row.fields b).names := by
        intro label member
        obtain ⟨t, here⟩ := Option.isSome_iff_exists.mp ((holdsA.mem_names label).mp member)
        refine (holdsB.mem_names label).mpr ?_
        simpa using congrArg Option.isSome (found here)
      have perm := (List.subperm_of_subset holdsA.distinct subset).perm_of_length_le
        (by simpa [Index.names, Index.size] using size.ge)
      cases here : a.lookup label with
      | some t => exact (found here).symm
      | none =>
        have absent : label ∉ (Row.fields b).names := by
          rw [← perm.mem_iff, holdsA.mem_names, here]
          exact Bool.false_ne_true
        rw [holdsB.mem_names, Option.not_isSome_iff_eq_none] at absent
        rw [absent]
    · rintro same ⟨label, t⟩ member
      rw [entry (mem_of_mem_fields member), ← same, mem_entries_iff.mp member, Option.map_some]
  · rename_i size
    simp only [List.mem_singleton, forall_eq, agrees_clash, false_iff]
    intro same
    refine size (Index.size_eq_of_labels fun label => ?_)
    rw [← Option.isSome_map, same label, Option.isSome_map]

end Agreement

theorem zip_reading (row : Row) :
    (row.map Prod.fst).zip ((row.map Prod.snd).map (s.reading θ)) =
      row.map (Prod.map id (s.reading θ)) := by
  rw [List.map_map, List.zip_map']
  rfl

theorem eq_iff_map {α : Type} (xs ys : List (String × α)) :
    xs.map Prod.fst = ys.map Prod.fst ∧ xs.map Prod.snd = ys.map Prod.snd ↔ xs = ys := by
  constructor
  · rintro ⟨labels, values⟩
    have zipped : ∀ zs : List (String × α), zs = (zs.map Prod.fst).zip (zs.map Prod.snd) := by
      intro zs
      rw [List.zip_map']
      simp
    rw [zipped xs, zipped ys, labels, values]
  · rintro rfl
    exact ⟨rfl, rfl⟩

theorem ofTops_agrees {α : Type} {read : Ty → Term α} {a b : Ty} {headA headB : Head}
    {partsA partsB : List Ty} (topA : a.node? = some (headA, partsA))
    (topB : b.node? = some (headB, partsB)) (ha : ∀ t ∈ partsA, t.isMissing ≠ true)
    (hb : ∀ t ∈ partsB, t.isMissing ≠ true) (readA : read a = headA.surface (partsA.map read))
    (readB : read b = headB.surface (partsB.map read)) :
    (∀ o ∈ ofTops a b, o.Agrees read) ↔ read a = read b := by
  have row (fields : Row) : (fields.map Prod.fst).zip ((fields.map Prod.snd).map read) =
      fields.map (Prod.map id read) := by
    rw [List.map_map, List.zip_map']
    rfl
  rw [readA, readB]
  cases a <;> cases topA <;> cases b <;> cases topB
  all_goals
    simp only [ofTops, Head.surface, Term.node.injEq, reduceCtorEq, false_and, List.mem_singleton,
      forall_eq, agrees_clash]
  case const a b =>
    split
    · rename_i same
      simp [(DeclName.same_iff a b).mp same]
    · rename_i differ
      simp [mt (DeclName.same_iff a b).mpr differ]
  case app a b =>
    split
    · rename_i same
      simp only [ofLists_agrees, (DeclName.same_iff a b).mp same, true_and]
    · rename_i differ
      simp [mt (DeclName.same_iff a b).mpr differ]
  case tuple => simp only [ofLists_agrees, true_and]
  case fn ps p qs q =>
    simp only [List.forall_mem_append, ofLists_agrees, List.forall_mem_singleton, agrees_equal,
      List.map_append, List.map_cons, List.map_nil, true_and, List.append_singleton_inj]
  case record a b =>
    simp only [ofRows_agrees ha hb, row, Head.record.injEq, eq_iff_map, byLabel_leftmost_eq_iff,
      lookup_map_snd]
  case signature a b =>
    simp only [ofRows_agrees ha hb, row, Head.signature.injEq, eq_iff_map, byLabel_leftmost_eq_iff,
      lookup_map_snd]

theorem ofTops_holds {a b : Ty} {headA headB : Head} {partsA partsB : List Ty}
    (topA : a.node? = some (headA, partsA)) (topB : b.node? = some (headB, partsB))
    (ha : a.Regular) (hb : b.Regular) :
    (∀ o ∈ ofTops a b, o.Holds s θ) ↔ s.reading θ a = s.reading θ b := by
  simp only [holds_iff_agrees]
  have read {t : Ty} {head : Head} {parts : List Ty} (regular : t.Regular)
      (top : t.node? = some (head, parts)) :
      s.reading θ t = head.surface (parts.map (s.reading θ)) := by
    rw [Store.reading_node top]
    exact Head.arrange_eq_surface (regular.head top) _
  refine ofTops_agrees topA topB (fun t member => ?_) (fun t member => ?_) (read ha topA) (read hb topB)
  · exact (ha.part topA member).not_missing
  · exact (hb.part topB member).not_missing

/-- What is left to do is about parts of the two types. A fault comes from a part that is missing. -/
def Between (as bs : List Ty) (o : Obligation) : Prop :=
  o = .clash ∨ (∃ x ∈ as, ∃ y ∈ bs, o = .equal x y) ∨
    ∃ f part, o = .fault f ∧ part.isMissing = true ∧ (part ∈ as ∨ part ∈ bs)

theorem between_clash {as bs : List Ty} {o : Obligation} (member : o ∈ [clash]) : Between as bs o :=
  .inl (List.mem_singleton.mp member)

theorem ofLists_between {as bs : List Ty} {o : Obligation} (member : o ∈ ofLists as bs) :
    Between as bs o := by
  unfold ofLists at member
  split at member
  · rw [← List.map_uncurry_zip_eq_zipWith] at member
    obtain ⟨⟨x, y⟩, pair, rfl⟩ := List.mem_map.mp member
    exact .inr (.inl ⟨x, List.of_mem_zip pair |>.1, y, List.of_mem_zip pair |>.2, rfl⟩)
  · exact between_clash member

theorem ofField_between {a b : Row} {field : String × Ty} (member : field ∈ a) :
    Between (a.map Prod.snd) (b.map Prod.snd) (ofField (Row.fields b) field) := by
  obtain ⟨label, t⟩ := field
  have inside : t ∈ a.map Prod.snd := List.mem_map_of_mem member
  unfold ofField
  split
  · rename_i same
    cases same
    exact .inr (.inr ⟨_, _, rfl, rfl, .inl inside⟩)
  · rename_i same
    cases same
    split
    · exact .inl rfl
    · rename_i found
      exact .inr (.inr ⟨_, _, rfl, rfl, .inr (mem_of_get? found)⟩)
    · rename_i found
      exact .inr (.inl ⟨t, inside, _, mem_of_get? found, rfl⟩)

theorem ofRows_between {a b : Row} {o : Obligation} (member : o ∈ ofRows a b) :
    Between (a.map Prod.snd) (b.map Prod.snd) o := by
  unfold ofRows at member
  split at member
  · cases member
  · split at member
    · obtain ⟨field, inside, rfl⟩ := List.mem_map.mp member
      exact ofField_between (mem_of_mem_fields inside)
    · exact between_clash member

theorem ofTops_between {a b : Ty} {o : Obligation} (member : o ∈ ofTops a b) :
    o = .clash ∨ ∃ headA partsA headB partsB, a.node? = some (headA, partsA) ∧
      b.node? = some (headB, partsB) ∧ Between partsA partsB o := by
  unfold ofTops at member
  split at member
  · cases member
  · split at member
    · cases member
    · exact .inl (List.mem_singleton.mp member)
  · split at member
    · exact .inr ⟨_, _, _, _, rfl, rfl, ofLists_between member⟩
    · exact .inl (List.mem_singleton.mp member)
  · refine .inr ⟨_, _, _, _, rfl, rfl, ?_⟩
    rename_i ps p qs q
    rcases List.mem_append.mp member with member | member
    · rcases ofLists_between member with same | ⟨x, hx, y, hy, same⟩ | ⟨f, part, same, missing, inside⟩
      · exact .inl same
      · exact .inr (.inl ⟨x, List.mem_append_left _ hx, y, List.mem_append_left _ hy, same⟩)
      · exact .inr (.inr ⟨f, part, same, missing,
          inside.imp (List.mem_append_left _) (List.mem_append_left _)⟩)
    · exact .inr (.inl ⟨p, by simp, q, by simp, List.mem_singleton.mp member⟩)
  · exact .inr ⟨_, _, _, _, rfl, rfl, ofLists_between member⟩
  · exact .inr ⟨_, _, _, _, rfl, rfl, ofRows_between member⟩
  · exact .inr ⟨_, _, _, _, rfl, rfl, ofRows_between member⟩
  · exact .inl (List.mem_singleton.mp member)

theorem ofTops_equal {a b : Ty} (ha : a.Present) (hb : b.Present) {o : Obligation}
    (member : o ∈ ofTops a b) :
    o = .clash ∨ ∃ headA partsA headB partsB, a.node? = some (headA, partsA) ∧
      b.node? = some (headB, partsB) ∧ ∃ x ∈ partsA, ∃ y ∈ partsB, o = .equal x y := by
  rcases ofTops_between member with clash | ⟨headA, partsA, headB, partsB, topA, topB, between⟩
  · exact .inl clash
  · rcases between with clash | parts | ⟨f, part, -, missing, inside⟩
    · exact .inl clash
    · exact .inr ⟨headA, partsA, headB, partsB, topA, topB, parts⟩
    · have present : part.Present := inside.elim (ha.part topA) (hb.part topB)
      exact absurd missing present.not_missing

theorem ofTops_parts {a b : Ty} {headA headB : Head} {partsA partsB : List Ty}
    (topA : a.node? = some (headA, partsA)) (topB : b.node? = some (headB, partsB))
    (ha : a.Present) (hb : b.Present) {o : Obligation} (member : o ∈ ofTops a b) :
    o = .clash ∨ ∃ x ∈ partsA, ∃ y ∈ partsB, o = .equal x y := by
  rcases ofTops_equal ha hb member with clash | ⟨_, _, _, _, topA', topB', parts⟩
  · exact .inl clash
  · cases topA.symm.trans topA'
    cases topB.symm.trans topB'
    exact .inr parts

theorem ofTops_cell_left {b : Ty} {head : Head} {parts : List Ty} (ref : Nat)
    (top : b.node? = some (head, parts)) : ofTops (.cell ref) b = [.clash] := by
  cases b <;> cases top <;> rfl

theorem ofTops_cell_right {a : Ty} {head : Head} {parts : List Ty} (ref : Nat)
    (top : a.node? = some (head, parts)) : ofTops a (.cell ref) = [.clash] := by
  cases a <;> cases top <;> rfl

end Obligation

end LetPoly
