import LetPoly.Proofs.Lists
import LetPoly.Proofs.Unification.Visible

namespace LetPoly

/-- The cell is written somewhere in the type. -/
inductive Ty.Mentions (ref : Nat) : Ty → Prop
  | cell : Mentions ref (.cell ref)
  | arg {decl : DeclName} {args : List Ty} {t : Ty} (member : t ∈ args) (inside : Mentions ref t) :
    Mentions ref (.app decl args)
  | elem {elems : List Ty} {t : Ty} (member : t ∈ elems) (inside : Mentions ref t) :
    Mentions ref (.tuple elems)
  | param {params : List Ty} {result t : Ty} (member : t ∈ params) (inside : Mentions ref t) :
    Mentions ref (.fn params result)
  | result {params : List Ty} {result : Ty} (inside : Mentions ref result) :
    Mentions ref (.fn params result)
  | field {row : Row} {label : String} {t : Ty} (member : (label, t) ∈ row)
    (inside : Mentions ref t) : Mentions ref (.record row)
  | entry {row : Row} {label : String} {t : Ty} (member : (label, t) ∈ row)
    (inside : Mentions ref t) : Mentions ref (.signature row)

namespace Ty

variable {t : Ty} {ref : Nat}

theorem mentions_of_part {head : Head} {parts : List Ty} (top : t.node? = some (head, parts))
    {part : Ty} (member : part ∈ parts) (inside : part.Mentions ref) : t.Mentions ref := by
  cases t with
  | missing | cell => cases top
  | const =>
    cases top
    cases member
  | app =>
    cases top
    exact .arg member inside
  | tuple =>
    cases top
    exact .elem member inside
  | fn =>
    cases top
    rcases List.mem_append.mp member with member | member
    · exact .param member inside
    · cases List.mem_singleton.mp member
      exact .result inside
  | record =>
    cases top
    obtain ⟨⟨label, _⟩, written, rfl⟩ := List.mem_map.mp member
    exact .field written inside
  | signature =>
    cases top
    obtain ⟨⟨label, _⟩, written, rfl⟩ := List.mem_map.mp member
    exact .entry written inside

theorem mentions_iff : t.Mentions ref ↔ .cell ref ∈ t.leaves := by
  constructor
  · intro mentions
    induction mentions with
    | cell => exact cell_mem_leaves
    | arg member _ ih | elem member _ ih => exact leaves_part_subset rfl member ih
    | param member _ ih => exact leaves_part_subset rfl (List.mem_append_left _ member) ih
    | result _ ih => exact leaves_part_subset rfl (List.mem_append_right _ List.mem_cons_self) ih
    | field member _ ih | entry member _ ih =>
      exact leaves_part_subset rfl (List.mem_map_of_mem (f := Prod.snd) member) ih
  · intro leaf
    induction t using partsInduction with
    | leaf other =>
      rw [leaves_toTy, List.mem_singleton] at leaf
      exact leaf ▸ .cell
    | node t head parts top ih =>
      rw [leaves_of_node top] at leaf
      obtain ⟨part, member, leaf⟩ := List.mem_flatMap.mp leaf
      exact mentions_of_part top member (ih part member leaf)

end Ty

namespace Store

variable {s s' : Store} {t u : Ty} {ref : Nat} {n : Nat} {level : Int}

theorem mem_leaves_resolveWithin (shallow : s.Shallow n t) :
    .cell ref ∈ (s.resolveWithin (n + 1) t).leaves ↔
      s.ReachesIn (n + 1) t ref ∧ ∀ target, s.state ref ≠ .linked target := by
  induction n using Nat.strongRecOn generalizing t with
  | ind n ih =>
    rw [Ty.leaves_eq_atoms, tree_resolveWithin, Term.mem_atoms_bind]
    simp only [← Ty.leaves_eq_atoms]
    constructor
    · rintro ⟨leaf, met, inside⟩
      cases leaf with
      | missing mark => simp [resolveLeaf, Ty.leaves] at inside
      | cell other =>
        cases state : s.state other with
        | linked target =>
          obtain ⟨m, rfl, below⟩ := shallow.link met state
          simp only [resolveLeaf, state] at inside
          obtain ⟨reach, plain⟩ := (ih m (Nat.lt_succ_self m) below).mp inside
          exact ⟨.inr ⟨other, target, met, state, reach⟩, plain⟩
        | unbound | generic =>
          simp only [resolveLeaf, state, Ty.leaves, List.mem_singleton, Leaf.cell.injEq] at inside
          subst inside
          exact ⟨.inl met, by simp [state]⟩
    · rintro ⟨met | ⟨first, target, met, linked, rest⟩, plain⟩
      · refine ⟨.cell ref, met, ?_⟩
        cases state : s.state ref with
        | linked target => exact absurd state (plain target)
        | unbound | generic => simp [resolveLeaf, state, Ty.leaves]
      · obtain ⟨m, rfl, below⟩ := shallow.link met linked
        refine ⟨.cell first, met, ?_⟩
        simp only [resolveLeaf, linked]
        exact (ih m (Nat.lt_succ_self m) below).mpr ⟨rest, plain⟩

/-- The resolved type holds the cells that are reached and not linked. -/
theorem mentions_resolve (finite : s.Finite t) :
    (s.resolve t).Mentions ref ↔ s.Reaches t ref ∧ ∀ target, s.state ref ≠ .linked target := by
  rw [Ty.mentions_iff, ← reachesIn_depth]
  exact mem_leaves_resolveWithin finite.shallow

theorem var_mem_view_iff (finite : s.Finite t) :
    .var ref ∈ (s.view t).atoms ↔
      (s.resolve t).Mentions ref ∧ ∃ level, s.state ref = .unbound level := by
  rw [var_mem_view finite, mentions_resolve finite, and_assoc]
  apply and_congr_right
  intro _
  constructor
  · rintro ⟨level, free⟩
    exact ⟨by simp [free], level, free⟩
  · exact And.right

theorem rigid_mem_view_iff {id : Int} :
    .rigid id ∈ (s.view t).atoms ↔
      ∃ ref, (s.resolve t).Mentions ref ∧ s.state ref = .generic ∧ (s.cell ref).id = id := by
  rw [view, Term.mem_atoms_bind]
  simp only [Ty.mentions_iff, ← Ty.leaves_eq_atoms, Term.atoms_atom, List.mem_singleton]
  constructor
  · rintro ⟨leaf, met, same⟩
    cases leaf with
    | missing mark => cases same
    | cell ref =>
      cases state : s.state ref with
      | generic =>
        simp only [atomOf, state, Atom.rigid.injEq] at same
        exact ⟨ref, met, state, same.symm⟩
      | unbound | linked => simp [atomOf, state] at same
  · rintro ⟨ref, met, generic, rfl⟩
    exact ⟨.cell ref, met, by simp [atomOf, generic]⟩

theorem mem_unboundIds_iff (finite : s.Finite t) {id : Int} :
    id ∈ s.unboundIds t ↔ ∃ ref, .var ref ∈ (s.view t).atoms ∧ (s.cell ref).id = id := by
  rw [mem_unboundIds, occurs_iff]
  apply exists_congr
  intro ref
  rw [var_mem_view finite]
  constructor
  · rintro ⟨level, reach, free, same⟩
    exact ⟨⟨reach, level, free⟩, same⟩
  · rintro ⟨⟨reach, level, free⟩, same⟩
    exact ⟨level, reach, free, same⟩

def Bare (s : Store) (t : Ty) : Prop :=
  ∀ leaf ∈ t.leaves, ∃ ref < s.size, leaf = .cell ref ∧ ∀ target, s.state ref ≠ .linked target

theorem Bare.extend (ext : s.Extends s') (bare : s.Bare t) : s'.Bare t := by
  intro leaf met
  obtain ⟨ref, inside, same, plain⟩ := bare leaf met
  refine ⟨ref, Nat.lt_of_lt_of_le inside ext.size, same, fun target linked => ?_⟩
  exact plain target ((ext.state inside).symm.trans linked)

theorem bare_cell (inside : ref < s.size) (plain : ∀ target, s.state ref ≠ .linked target) :
    s.Bare (.cell ref) := by
  intro leaf met
  exact ⟨ref, inside, List.mem_singleton.mp met, plain⟩

theorem bare_of_parts {head : Head} {parts : List Ty} (top : t.node? = some (head, parts))
    (bare : ∀ part ∈ parts, s.Bare part) : s.Bare t := by
  intro leaf met
  rw [Ty.leaves_of_node top] at met
  obtain ⟨part, member, met⟩ := List.mem_flatMap.mp met
  exact bare part member leaf met

theorem generalizeWithin_bare {m : Nat} (level : Int) (complete : s.Complete t)
    (shallow : s.Shallow n t) (enough : n < m) :
    Relates (Running.state _) (s.namingWorld fun s _ u => s.Bare u) (fun st _ u => st.1.Bare u) t
      (generalizeWithin level m t) := by
  induction m generalizing n t with
  | zero => omega
  | succ m ih =>
    simp only [generalizeWithin]
    refine replaceM_relates (fun st t u head parts parts' _ top all => ?_) fun leaf met => ?_
    · exact bare_of_parts top fun part member => (exists_of_forall₂ all member).elim fun _ h => h.2
    obtain ⟨ref, inside, rfl⟩ := complete.holds leaf met
    rintro ⟨store, table⟩ valid
    have same : store.state ref = s.state ref := valid.1.state inside
    have kept (plain : ∀ target, s.state ref ≠ .linked target) :
        Yields (Running.state _) (s.namingWorld fun s _ u => s.Bare u) (fun st u => st.1.Bare u)
          (pure (.cell ref)) (store, table) :=
      yields_pure valid fun st' valid' _ => (bare_cell inside plain).extend valid'.1
    apply yields_get
    simp only [same]
    cases state : s.state ref with
    | linked target =>
      obtain ⟨k, rfl, below⟩ := shallow.link met state
      exact ih (complete.link met state) below (by omega) (store, table) valid
    | unbound own =>
      dsimp only
      split
      · refine yields_named _ (fun grown bare => bare.extend grown) (fun s id => ?_) valid
        apply bare_cell
        · rw [size_alloc]
          omega
        · rw [state_alloc_self]
          intro target linked
          cases linked
      · exact kept (by simp [state])
    | generic => exact kept (by simp [state])

theorem generalize_bare (level : Int) (complete : s.Complete t) :
    (s.generalize level t).2.Bare (s.generalize level t).1 := by
  have start : (s.namingWorld fun s _ u => s.Bare u).Valid (s, []) := ⟨.refl s, by simp⟩
  obtain ⟨u, ⟨s', table⟩, runs, valid, -, bare⟩ :=
    generalizeWithin_bare level complete complete.finite.shallow (Nat.lt_succ_self s.size) (s, []) start
  have result : s.generalize level t = (u, s') := by
    simp only [generalize]
    rw [show generalizeWithin level s.depth t (s, []) = (u, s', table) from runs]
  rw [result]
  exact bare (s', table) valid (Extends.refl s')

theorem mem_unboundIds_generalize (level : Int) (complete : s.Complete t) {id : Int} :
    id ∈ (s.generalize level t).2.unboundIds (s.generalize level t).1 ↔
      ∃ ref own, (s.resolve t).Mentions ref ∧ s.state ref = .unbound own ∧ own ≤ level ∧
        (s.cell ref).id = id := by
  obtain ⟨grown, reads⟩ := generalize_spec level complete
  rw [mem_unboundIds_iff reads.complete.finite]
  constructor
  · intro found
    obtain ⟨ref, member, same⟩ := found
    rw [reads.view_eq, Term.var_mem_subst] at member
    obtain ⟨other, member, kept⟩ := member
    obtain rfl := var_mem_closing kept
    obtain ⟨mentions, own, free⟩ := (var_mem_view_iff complete.finite).mp member
    refine ⟨ref, own, mentions, free, ?_, ?_⟩
    · by_contra deeper
      rw [closing_of_lt free (Int.not_le.mp deeper)] at kept
      simp at kept
    · rw [← grown.cell ref (lt_size_of_unbound free), same]
  · intro found
    obtain ⟨ref, own, mentions, free, outer, same⟩ := found
    refine ⟨ref, ?_, ?_⟩
    · rw [mem_generalize_iff complete free outer, var_mem_view_iff complete.finite]
      exact ⟨mentions, own, free⟩
    · rw [grown.cell ref (lt_size_of_unbound free), same]

/-- The traversals agree on what a type holds. The resolved type is written over the cells that are
    reached and not linked. The numbers that are collected and those that occur are the numbers of
    its unbound cells, the type is generic if one of its cells is, and lowering levels changes its
    unbound cells and nothing else. Of the unbound cells a generalized type keeps those that are not
    deeper than the level, and no link is left in it. -/
theorem traversals_agree (complete : s.Complete t) :
    (∀ ref, (s.resolve t).Mentions ref ↔ s.Reaches t ref ∧ ∀ target, s.state ref ≠ .linked target) ∧
    (∀ id, id ∈ s.unboundIds t ↔ ∃ ref own, (s.resolve t).Mentions ref ∧
      s.state ref = .unbound own ∧ (s.cell ref).id = id) ∧
    (∀ id, s.occurs id t = true ↔ id ∈ s.unboundIds t) ∧
    (∃ b, s.isGeneric t = .ok b ∧
      (b = true ↔ ∃ ref, (s.resolve t).Mentions ref ∧ s.state ref = .generic)) ∧
    (∀ level, level ≠ genericLevel ∧ level ≠ linkLevel →
      Lowers level (s.Reaches t) s (s.adjustLevels level t)) ∧
    ∀ level,
      let closed := s.generalize level t
      (∀ id, id ∈ closed.2.unboundIds closed.1 ↔ ∃ ref own, (s.resolve t).Mentions ref ∧
        s.state ref = .unbound own ∧ own ≤ level ∧ (s.cell ref).id = id) ∧
      ∀ ref target, closed.1.Mentions ref → closed.2.state ref ≠ .linked target := by
  refine ⟨fun ref => mentions_resolve complete.finite, fun id => ?_, fun id => mem_unboundIds.symm,
    ?_, fun level unmarked => adjustLevels_lowers unmarked s t, fun level => ⟨fun id => ?_, ?_⟩⟩
  · rw [mem_unboundIds_iff complete.finite]
    apply exists_congr
    intro ref
    rw [var_mem_view_iff complete.finite]
    grind
  · obtain ⟨b, asked, generic⟩ := isGeneric_spec complete
    refine ⟨b, asked, generic.trans ?_⟩
    simp only [rigid_mem_view_iff]
    grind
  · exact mem_unboundIds_generalize level complete
  · intro ref target mentions
    obtain ⟨_, -, same, plain⟩ := generalize_bare level complete _ (Ty.mentions_iff.mp mentions)
    cases same
    exact plain target

def chained : Store :=
  { cells := #[⟨1, .unbound 1⟩, ⟨2, .unbound 5⟩, ⟨3, .generic⟩, ⟨4, .linked (.list (.cell 1))⟩] }

def everyForm : Ty :=
  .fn [.const { name := "Int" }, .record [("a", .cell 0), ("a", .cell 2)]]
    (.tuple [.signature [("m", .app { name := "F" } [.cell 3])]])

theorem everyForm_complete : chained.Complete everyForm := by
  have outer : chained.Complete (.cell 0) := .of_plain (by decide) fun target linked => by cases linked
  have deep : chained.Complete (.cell 1) := .of_plain (by decide) fun target linked => by cases linked
  have generic : chained.Complete (.cell 2) :=
    .of_plain (by decide) fun target linked => by cases linked
  have list : chained.Complete (.cell 3) :=
    .of_link (by decide) rfl (.of_parts rfl (List.forall_mem_singleton.mpr deep))
  have app : chained.Complete (.app { name := "F" } [.cell 3]) :=
    .of_parts rfl (List.forall_mem_singleton.mpr list)
  have signature : chained.Complete (.signature [("m", .app { name := "F" } [.cell 3])]) :=
    .of_parts rfl (List.forall_mem_singleton.mpr app)
  have record : chained.Complete (.record [("a", .cell 0), ("a", .cell 2)]) := by
    apply Complete.of_parts rfl
    simp [outer, generic]
  have base : chained.Complete (.const { name := "Int" }) :=
    .of_parts rfl (List.forall_mem_nil _)
  have tuple : chained.Complete (.tuple [.signature [("m", .app { name := "F" } [.cell 3])]]) :=
    .of_parts rfl (List.forall_mem_singleton.mpr signature)
  apply Complete.of_parts rfl
  simp [base, record, tuple]

theorem traversals_agree_everyForm :
    chained.Complete everyForm ∧ chained.occurs 2 everyForm = true ∧
    2 ∈ chained.unboundIds everyForm ∧ 3 ∉ chained.unboundIds everyForm ∧
    chained.isGeneric everyForm = .ok true ∧
    (chained.adjustLevels 3 everyForm).state 1 = .unbound 3 ∧
    2 ∉ (chained.generalize 2 everyForm).2.unboundIds (chained.generalize 2 everyForm).1 := by
  obtain ⟨resolved, -, occurs, ⟨b, asked, generic⟩, lowers, closed⟩ :=
    traversals_agree everyForm_complete
  have met : chained.occurs 2 everyForm = true := by decide
  have reach : (chained.resolve everyForm).Mentions 1 := Ty.mentions_iff.mpr (by decide)
  have rigid : (chained.resolve everyForm).Mentions 2 := Ty.mentions_iff.mpr (by decide)
  obtain rfl : b = true := generic.mpr ⟨2, rigid, rfl⟩
  refine ⟨everyForm_complete, met, (occurs 2).mp met, fun member => ?_, asked, ?_, fun member => ?_⟩
  · exact absurd ((occurs 3).mpr member) (by decide)
  · exact (lowers 3 (by decide)).lowered 1 ((resolved 1).mp reach).1
  · obtain ⟨ref, own, -, free, outer, same⟩ := ((closed 2).1 2).mp member
    have inside : ref < 4 := lt_size_of_unbound free
    have cases : ref = 0 ∨ ref = 1 ∨ ref = 2 ∨ ref = 3 := by omega
    rcases cases with rfl | rfl | rfl | rfl
    · exact absurd same (by decide)
    · cases free
      exact absurd outer (by decide)
    · cases free
    · cases free

end Store

end LetPoly
