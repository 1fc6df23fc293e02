import LetPoly.Proofs.Printing.Tokens

namespace LetPoly

open Layout

def Head.IsSimple : Head → Prop
  | .const decl | .app decl => IsTypeName decl.name
  | .fn => True
  | .tuple | .record _ | .signature _ => False

instance : DecidablePred Head.IsSimple
  | .const decl | .app decl => inferInstanceAs (Decidable (IsTypeName decl.name))
  | .fn => .isTrue trivial
  | .tuple | .record _ | .signature _ => .isFalse not_false

namespace Store

variable {s s' : Store} {t : Ty} {ts ts' : List Ty}

structure Simple (s : Store) (t : Ty) : Prop where
  finite : s.Finite t
  heads : ∀ head ∈ (s.shown t).heads, head.IsSimple
  present : .missing ∉ (s.shown t).atoms

def showAll (s : Store) (width : Int) (ts : List Ty) : List String :=
  (StateT.run (ts.mapM (m := StateM VarNames) (s.showType width)) {}).1

def idsOf (s : Store) (ts : List Ty) : List Int := ts.flatMap fun t => (s.outline t).ids

def namesOf (s : Store) (ts : List Ty) : VarNames := VarNames.see {} (s.idsOf ts)

theorem mapM_showType_cons (s : Store) (width : Int) (t : Ty) (ts : List Ty) (names : VarNames) :
    (t :: ts).mapM (m := StateM VarNames) (s.showType width) names =
      ((s.showType width t names).1 ::
          (ts.mapM (m := StateM VarNames) (s.showType width) (s.showType width t names).2).1,
        (ts.mapM (m := StateM VarNames) (s.showType width) (s.showType width t names).2).2) := by
  rw [List.mapM_cons]
  rfl

theorem mapM_showType (each : ∀ t ∈ ts, s.Finite t) (width : Int) (names : VarNames) :
    ts.mapM (m := StateM VarNames) (s.showType width) names =
      (ts.map fun t => ((s.outline t).docIn (names.see (s.idsOf ts))).format width,
        names.see (s.idsOf ts)) := by
  induction ts generalizing names with
  | nil => rfl
  | cons t ts ih =>
    obtain ⟨first, later⟩ := List.forall_mem_cons.mp each
    have stays : ∀ more, (s.outline t).docIn ((names.see (s.outline t).ids).see more) =
        (s.outline t).docIn (names.see (s.outline t).ids) := by
      intro more
      apply Term.docIn_see
      intro id member
      exact VarNames.mem_seen_see.mpr (.inr member)
    rw [mapM_showType_cons, showType_eq first, ih later]
    simp only [idsOf, List.map_cons, List.flatMap_cons, VarNames.see_append, stays]

theorem showAll_eq (each : ∀ t ∈ ts, s.Finite t) (width : Int) :
    s.showAll width ts =
      ts.map fun t => ((s.outline t).docIn (s.namesOf ts)).format width := by
  rw [showAll, StateT.run, mapM_showType each, namesOf]

theorem Simple.legible (simple : s.Simple t) (names : VarNames) :
    Legible ((s.outline t).map (Option.map names.nameOf)) := by
  obtain ⟨finite, heads, present⟩ := simple
  induction finite using Finite.induction with
  | missing mark => simp at present
  | plain ref _ plain =>
    rw [outline_plain plain]
    exact .var _
  | linked ref target finite linked ih =>
    rw [shown_linked finite linked] at heads present
    rw [outline_linked finite linked]
    exact ih heads present
  | node t head parts finite top ih =>
    rw [shown_node top] at heads present
    simp only [Term.heads_node, List.forall_mem_cons, List.flatMap_map, List.mem_flatMap,
      Term.atoms_node, not_exists, not_and] at heads present
    have below : ∀ part ∈ parts, Legible ((s.outline part).map (Option.map names.nameOf)) := by
      intro part member
      refine ih part member (fun head inside => heads.2 head ⟨part, member, inside⟩) ?_
      exact present part member
    rw [outline_node top, Term.map_node]
    cases t with
    | missing | cell => cases top
    | tuple | record | signature =>
      cases top
      exact heads.1.elim
    | const decl =>
      cases top
      exact .const heads.1
    | app decl args =>
      cases top
      refine .app heads.1 ?_
      simpa [Head.opens] using below
    | fn params result =>
      cases top
      obtain ⟨eachParam, eachResult⟩ := List.forall_mem_append.mp below
      simp only [Head.opens, if_true, List.map_append, List.map_cons, List.map_nil]
      refine .fn ?_ (eachResult result List.mem_cons_self)
      simpa using eachParam

theorem named_eq_of_format {names names' : VarNames} {width : Int} (each : ∀ t ∈ ts, s.Simple t)
    (each' : ∀ t ∈ ts', s'.Simple t)
    (same : (ts.map fun t => ((s.outline t).docIn names).format width) =
      ts'.map fun t => ((s'.outline t).docIn names').format width) :
    (ts.map fun t => (s.outline t).map (Option.map names.nameOf)) =
      ts'.map fun t => (s'.outline t).map (Option.map names'.nameOf) := by
  induction ts generalizing ts' with
  | nil =>
    cases ts' with
    | nil => rfl
    | cons => cases same
  | cons t ts ih =>
    cases ts' with
    | nil => cases same
    | cons t' ts' =>
      obtain ⟨first, later⟩ := List.forall_mem_cons.mp each
      obtain ⟨first', later'⟩ := List.forall_mem_cons.mp each'
      simp only [List.map_cons, List.cons.injEq] at same ⊢
      refine ⟨?_, ih later later' same.2⟩
      exact (first.legible names).eq_of_format (first'.legible names') same.1

theorem mem_idsOf {id : Int} : id ∈ s.idsOf ts ↔ ∃ t ∈ ts, some id ∈ (s.outline t).atoms := by
  simp only [idsOf, List.mem_flatMap, Term.mem_ids]

theorem mem_named_iff {names : VarNames} {name : String} :
    (∃ τ ∈ ts.map fun t => (s.outline t).map (Option.map names.nameOf), some name ∈ τ.atoms) ↔
      name ∈ names.nameOf '' {id | id ∈ s.idsOf ts} := by
  simp only [List.mem_map, exists_exists_and_eq_and, Term.atoms_map, Option.map_eq_some_iff,
    Set.mem_image, Set.mem_ofPred_eq, mem_idsOf]
  constructor
  · rintro ⟨t, member, a, atom, id, rfl, named⟩
    exact ⟨id, ⟨t, member, atom⟩, named⟩
  · rintro ⟨id, ⟨t, member, atom⟩, named⟩
    exact ⟨t, member, some id, atom, id, rfl, named⟩

theorem mem_seen_namesOf {id : Int} : id ∈ (s.namesOf ts).seen ↔ id ∈ s.idsOf ts := by
  rw [namesOf, VarNames.mem_seen_see]
  simp

theorem bijOn_nameOf (s : Store) (ts : List Ty) :
    Set.BijOn (s.namesOf ts).nameOf {id | id ∈ s.idsOf ts}
      ((s.namesOf ts).nameOf '' {id | id ∈ s.idsOf ts}) := by
  apply Set.InjOn.bijOn_image
  exact (VarNames.nameOf_injOn _).mono fun id member => mem_seen_namesOf.mpr member

theorem renumber_of_named
    (same : (ts.map fun t => (s.outline t).map (Option.map (s.namesOf ts).nameOf)) =
      ts'.map fun t => (s'.outline t).map (Option.map (s'.namesOf ts').nameOf)) :
    ∃ f : Int → Int, Set.BijOn f {id | id ∈ s.idsOf ts} {id | id ∈ s'.idsOf ts'} ∧
      ts'.map s'.outline = ts.map fun t => (s.outline t).renumber f := by
  have names : (s.namesOf ts).nameOf '' {id | id ∈ s.idsOf ts} =
      (s'.namesOf ts').nameOf '' {id | id ∈ s'.idsOf ts'} := by
    ext name
    rw [← mem_named_iff, ← mem_named_iff, same]
  have bij := bijOn_nameOf s ts
  have bij' := bijOn_nameOf s' ts'
  -- a variable of the first list goes to the one that has its name in the second
  obtain ⟨back, inverse⟩ : ∃ back : String → Int, Set.InvOn back (s'.namesOf ts').nameOf
      {id | id ∈ s'.idsOf ts'} ((s'.namesOf ts').nameOf '' {id | id ∈ s'.idsOf ts'}) :=
    ⟨_, bij'.invOn_invFunOn⟩
  refine ⟨fun id => back ((s.namesOf ts).nameOf id), ?_, ?_⟩
  · exact (bij'.symm inverse.symm).comp (names ▸ bij)
  · have backwards := congrArg (List.map fun τ : Term (Option String) => τ.map (Option.map back)) same
    simp only [List.map_map, Function.comp_def, Term.map_map, Option.map_map] at backwards
    refine Eq.trans ?_ backwards.symm
    apply List.map_congr_left
    intro t member
    refine (Term.map_eq_self fun a atom => ?_).symm
    cases a with
    | none => rfl
    | some id =>
      exact congrArg some (inverse.1 (List.mem_flatMap.mpr ⟨t, member, Term.mem_ids.mpr atom⟩))

/-- Texts of types tell the types apart up to a renumbering of their variables, and a renumbering
    does not show. -/
theorem showAll_eq_iff (width : Int) (each : ∀ t ∈ ts, s.Simple t) (each' : ∀ t ∈ ts', s'.Simple t) :
    s.showAll width ts = s'.showAll width ts' ↔
      ∃ f : Int → Int, Set.BijOn f {id | id ∈ s.idsOf ts} {id | id ∈ s'.idsOf ts'} ∧
        ts'.map s'.outline = ts.map fun t => (s.outline t).renumber f := by
  rw [showAll_eq (fun t member => (each t member).finite),
    showAll_eq (fun t member => (each' t member).finite)]
  constructor
  · intro same
    exact renumber_of_named (named_eq_of_format each each' same)
  · rintro ⟨f, bij, same⟩
    have ids : s'.idsOf ts' = (s.idsOf ts).map f := by
      have flat := congrArg (List.flatMap Term.ids) same
      rw [List.flatMap_map, List.flatMap_map] at flat
      simpa only [idsOf, List.map_flatMap, Term.ids_renumber] using flat
    have inj : Set.InjOn f {id | id ∈ ({} : VarNames).seen ∨ id ∈ s.idsOf ts} :=
      bij.injOn.mono fun id member => by simpa using member
    have table : s'.namesOf ts' = (s.namesOf ts).renumber f := by
      rw [namesOf, ids]
      exact VarNames.see_renumber inj
    have docs := congrArg (List.map fun τ => (τ.docIn (s'.namesOf ts')).format width) same
    rw [List.map_map, List.map_map] at docs
    refine (docs.trans (List.map_congr_left fun t member => ?_)).symm
    rw [Function.comp_apply, table, Term.docIn_renumber]
    intro id inside other seen same
    refine bij.injOn (mem_seen_namesOf.mp seen) ?_ same
    exact List.mem_flatMap.mpr ⟨t, member, inside⟩

def aliasedPair : Store :=
  { cells := #[⟨7, .unbound 1⟩, ⟨3, .generic⟩, ⟨9, .linked (.cell 0)⟩] }

def freshPair : Store := { cells := #[⟨0, .unbound 4⟩, ⟨7, .unbound 1⟩] }

theorem aliasedPair_acyclic : aliasedPair.Acyclic := by
  refine acyclic_of_descending ?_
  rintro (_ | _ | _ | ref) next ⟨target, linked, leaf⟩
  all_goals cases linked
  simp only [Ty.leaves, List.mem_singleton, Leaf.cell.injEq] at leaf
  omega

theorem freshPair_acyclic : freshPair.Acyclic := by
  refine acyclic_of_descending ?_
  rintro (_ | _ | ref) next ⟨target, linked, leaf⟩
  all_goals cases linked

theorem showAll_eq_iff_pairs :
    let ts : List Ty := [.fn [.cell 2, .cell 1] (.list (.cell 0)), .cell 1]
    let ts' : List Ty := [.fn [.cell 0, .cell 1] (.app ⟨"List", "core", false⟩ [.cell 0]), .cell 1]
    (∀ t ∈ ts, aliasedPair.Simple t) ∧ (∀ t ∈ ts', freshPair.Simple t) ∧
      aliasedPair.showAll 10 ts = freshPair.showAll 10 ts' := by
  intro ts ts'
  have shapes : ∀ t ∈ ts, (∀ head ∈ (aliasedPair.shown t).heads, head.IsSimple) ∧
      Shown.missing ∉ (aliasedPair.shown t).atoms := by decide +kernel
  have shapes' : ∀ t ∈ ts', (∀ head ∈ (freshPair.shown t).heads, head.IsSimple) ∧
      Shown.missing ∉ (freshPair.shown t).atoms := by decide +kernel
  have simple : ∀ t ∈ ts, aliasedPair.Simple t := fun t member =>
    ⟨aliasedPair_acyclic.finite t, (shapes t member).1, (shapes t member).2⟩
  have simple' : ∀ t ∈ ts', freshPair.Simple t := fun t member =>
    ⟨freshPair_acyclic.finite t, (shapes' t member).1, (shapes' t member).2⟩
  let f : Int → Int := fun id => if id = 7 then 0 else 7
  have into : ∀ id ∈ aliasedPair.idsOf ts, f id ∈ freshPair.idsOf ts' := by decide
  have inj : ∀ id ∈ aliasedPair.idsOf ts, ∀ other ∈ aliasedPair.idsOf ts, f id = f other →
      id = other := by decide
  have onto : ∀ id ∈ freshPair.idsOf ts', ∃ other ∈ aliasedPair.idsOf ts, f other = id := by decide
  refine ⟨simple, simple', (showAll_eq_iff 10 simple simple').mpr ⟨f, ⟨into, ?_, onto⟩, rfl⟩⟩
  exact fun id member other member' same => inj id member other member' same

end Store

end LetPoly
