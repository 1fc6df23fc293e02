import LetPoly.Proofs.Unification.MostGeneral
import Mathlib.Data.List.Perm.Basic
import Mathlib.Data.Set.Function
import Mathlib.Order.Bounds.Basic

namespace LetPoly.Store

variable {s s' s'' left right : Store} {a b t : Ty} {ref other : Nat} {level : Int}
  {within : Nat → Prop} {θ : Substitution} {pairs pairs' : List (Ty × Ty)}

def free (s : Store) : Set Nat := {ref | ∃ level, s.state ref = .unbound level}

theorem Forward.reaches (forward : s.Forward s') (reach : s.Reaches t ref) : s'.Reaches t ref := by
  induction reach with
  | here leaf => exact .here leaf
  | through leaf linked _ ih => exact .through leaf (forward.linked linked) ih

theorem Forward.reaches_split (forward : s.Forward s') (reach : s'.Reaches t ref)
    (unbound : ref ∈ s'.free) :
    ∃ other ∈ s.free, s.Reaches t other ∧ s'.Reaches (.cell other) ref := by
  induction reach with
  | @here t ref leaf =>
    obtain ⟨level, state⟩ := unbound
    exact ⟨ref, forward.free_before state, .here leaf, .here (by simp [Ty.leaves])⟩
  | @through t target passed ref leaf linked rest ih =>
    cases state : s.state passed with
    | unbound level =>
      exact ⟨passed, ⟨level, state⟩, .here leaf, (reaches_linked linked).mpr (.inr rest)⟩
    | generic =>
      rw [forward.generic state] at linked
      cases linked
    | linked before =>
      have same := forward.linked state
      rw [linked] at same
      cases same
      obtain ⟨other, was, reach, onward⟩ := ih unbound
      exact ⟨other, was, .through leaf state reach, onward⟩

/-- The levels that variables had from which links now lead to a variable. -/
def levelsMerged (s s' : Store) (ref : Nat) : Set Int :=
  {level | ∃ other, s.state other = .unbound level ∧ s'.Reaches (.cell other) ref}

/-- What is unbound has the least level of all that was merged into it or bound to a type over it. -/
def LeastLevels (s s' : Store) : Prop :=
  ∀ ref level, s'.state ref = .unbound level → IsLeast (s.levelsMerged s' ref) level

namespace LeastLevels

theorem refl (s : Store) : s.LeastLevels s := by
  intro ref level unbound
  refine ⟨⟨ref, unbound, .here (by simp [Ty.leaves])⟩, fun own merged => ?_⟩
  obtain ⟨other, unbound', reach⟩ := merged
  obtain rfl := (reaches_plain (by simp [unbound'])).mp reach
  rw [unbound] at unbound'
  cases unbound'
  exact le_refl level

theorem trans (first : s.LeastLevels s') (second : s'.LeastLevels s'') (forward : s'.Forward s'') :
    s.LeastLevels s'' := by
  intro ref level unbound
  obtain ⟨⟨between, unbound', reach⟩, least⟩ := second ref level unbound
  constructor
  · obtain ⟨other, was, before⟩ := (first between level unbound').1
    exact ⟨other, was, (forward.reaches before).trans reach⟩
  · intro own merged
    obtain ⟨other, was, reach⟩ := merged
    obtain ⟨passed, ⟨height, state⟩, before, onward⟩ := forward.reaches_split reach ⟨level, unbound⟩
    have below : level ≤ height := least ⟨passed, state, onward⟩
    have above : height ≤ own := (first passed height state).2 ⟨other, was, before⟩
    exact below.trans above

end LeastLevels

theorem Ties.leastLevels (ties : s.Ties ref level t s') (unmarked : s.Unmarked) :
    s.LeastLevels s' := by
  intro other own unbound
  have forward := (ties.binds unmarked).forward
  obtain ⟨different, before, state, after⟩ := ties.unbound unbound
  have itself : before ∈ s.levelsMerged s' other := ⟨other, state, .here (by simp [Ty.leaves])⟩
  constructor
  · rcases after with ⟨reach, same⟩ | ⟨-, same⟩
    · have tied : level ∈ s.levelsMerged s' other :=
        ⟨ref, ties.free, (reaches_linked ties.bound).mpr (.inr (forward.reaches reach))⟩
      rcases Int.le_total level before with le | le
      · rwa [same, Int.min_eq_left le]
      · rwa [same, Int.min_eq_right le]
    · rwa [same]
  · intro height merged
    obtain ⟨start, was, reach⟩ := merged
    have alone : ∀ {next}, s.Reaches (.cell start) next → next = start :=
      (reaches_plain (by simp [was])).mp
    rcases ties.reaches unmarked reach with reach | ⟨reach, rest⟩
    · obtain rfl := alone reach
      rw [state] at was
      cases was
      rcases after with ⟨-, same⟩ | ⟨-, same⟩
      · exact same ▸ Int.min_le_right level before
      · exact same.le
    · obtain rfl := alone reach
      rw [ties.free] at was
      cases was
      rcases after with ⟨-, same⟩ | ⟨unmet, -⟩
      · exact same ▸ Int.min_le_left level before
      · exact absurd rest unmet

theorem Steps.leastLevels (steps : Steps within s s') (unmarked : s.Unmarked) :
    s.LeastLevels s' := by
  induction steps with
  | refl => exact .refl s
  | @tail s₁ s₂ before step ih =>
    obtain ⟨ref, level, t, ties, -⟩ := step
    have unmarked : s₁.Unmarked := Steps.unmarked before unmarked
    exact ih.trans (ties.leastLevels unmarked) (ties.binds unmarked).forward

def Solves (s : Store) (θ : Substitution) (pairs : List (Ty × Ty)) : Prop :=
  ∀ pair ∈ pairs, s.Unifies θ pair.1 pair.2

def PairsRegular (s : Store) (pairs : List (Ty × Ty)) : Prop :=
  ∀ pair ∈ pairs, s.Throughout Ty.Regular pair.1 ∧ s.Throughout Ty.Regular pair.2

theorem unify_outcome (wf : s.WellFormed) (regularA : s.Throughout Ty.Regular a)
    (regularB : s.Throughout Ty.Regular b) :
    ∃ bound, Outcome (.mismatch a b) bound [.equal a b] s (s.unify a b).1 (s.unify a b).2 :=
  ⟨_, unifyWithin_outcome (.mismatch a b) _ (s.unifyDepth a b) s a b wf (s.bounded_weight a b)
    ⟨regularA, fits_of_bounded s (by omega)⟩ ⟨regularB, fits_of_bounded s (by omega)⟩⟩

structure Solved (pairs : List (Ty × Ty)) (s s' : Store) : Prop where
  forward : s.Forward s'
  acyclic : s'.Acyclic
  respects : ∀ θ, s.Solves θ pairs → ∀ t, s'.reading θ t = s.reading θ t
  solved : ∀ θ, s'.Solves θ pairs

def Succeeds (s : Store) (pairs : List (Ty × Ty)) : Prop := ∀ e ∈ (s.unifyEach pairs).2, e = none

theorem succeeds_cons : s.Succeeds ((a, b) :: pairs) ↔
    (s.unify a b).2 = none ∧ (s.unify a b).1.Succeeds pairs :=
  List.forall_mem_cons

theorem unifyEach_succeeds (wf : s.WellFormed) (regular : s.PairsRegular pairs)
    (solves : s.Solves θ pairs) : s.Succeeds pairs := by
  induction pairs generalizing s with
  | nil =>
    intro e member
    cases member
  | cons pair pairs ih =>
    obtain ⟨⟨regularA, regularB⟩, regular⟩ := List.forall_mem_cons.mp regular
    obtain ⟨first, rest⟩ := List.forall_mem_cons.mp solves
    obtain ⟨bound, outcome⟩ := unify_outcome wf regularA regularB
    have same := outcome.respects θ (holds_single.mpr first)
    refine succeeds_cons.mpr ⟨?_, ih outcome.wellFormed (fun p member => ?_) fun p member => ?_⟩
    · cases failed : (s.unify pair.1 pair.2).2 with
      | none => rfl
      | some error => exact absurd (holds_single.mpr first) ((outcome.refuted error failed).2 θ)
    · exact (regular p member).imp (outcome.regular p.1) (outcome.regular p.2)
    · rw [Unifies, same, same]
      exact rest p member

theorem unifyEach_solved (wf : s.WellFormed) (regular : s.PairsRegular pairs)
    (ok : s.Succeeds pairs) : Solved pairs s (s.unifyEach pairs).1 := by
  induction pairs generalizing s with
  | nil => exact ⟨.refl s, wf.acyclic, fun _ _ _ => rfl, fun _ _ member => by cases member⟩
  | cons pair pairs ih =>
    obtain ⟨⟨regularA, regularB⟩, regular⟩ := List.forall_mem_cons.mp regular
    obtain ⟨first, rest⟩ := succeeds_cons.mp ok
    obtain ⟨bound, outcome⟩ := unify_outcome wf regularA regularB
    have later := ih outcome.wellFormed
      (fun p member => (regular p member).imp (outcome.regular p.1) (outcome.regular p.2)) rest
    refine ⟨outcome.forward.trans later.forward, later.acyclic, fun θ solves t => ?_, fun θ => ?_⟩
    · obtain ⟨head, tail⟩ := List.forall_mem_cons.mp solves
      have same := outcome.respects θ (holds_single.mpr head)
      refine (later.respects θ (fun p member => ?_) t).trans (same t)
      rw [Unifies, same, same]
      exact tail p member
    · -- what the first equation has made equal stays equal while the others are met
      have kept := later.forward.holds outcome.wellFormed.acyclic later.acyclic
        (fun θ => List.forall_mem_singleton.mp (outcome.solved first θ)) θ
      exact List.forall_mem_cons.mpr ⟨kept, later.solved θ⟩

theorem Forward.canonical_view (forward : s.Forward s') (acyclic : s.Acyclic)
    (acyclic' : s'.Acyclic) (t : Ty) :
    s.reading (fun ref => s'.view (.cell ref)) t = (s'.view t).canonical := by
  have same := forward.reading (θ := fun ref => .atom (.var ref)) acyclic'.finite (acyclic.finite t)
  simp only [Term.subst_var] at same
  rw [← same, Store.reading, Term.subst_var]

namespace Solved

theorem solves (solved : Solved pairs s s') (acyclic : s.Acyclic) :
    s.Solves (fun ref => s'.view (.cell ref)) pairs := by
  intro pair member
  have equal := solved.solved (fun ref => .atom (.var ref)) pair member
  simp only [Unifies, reading, Term.subst_var] at equal
  rw [Unifies, solved.forward.canonical_view acyclic solved.acyclic,
    solved.forward.canonical_view acyclic solved.acyclic, equal]

theorem factors (solved : Solved pairs s left) (solved' : Solved pairs' s right)
    (acyclic : s.Acyclic) (solves : s.Solves (fun ref => right.view (.cell ref)) pairs) (t : Ty) :
    left.reading (fun ref => right.view (.cell ref)) t = (right.view t).canonical := by
  rw [solved.respects _ solves, solved'.forward.canonical_view acyclic solved'.acyclic]

end Solved

theorem canonical_eq_atom {τ : Term Atom} {a : Atom} (same : τ.canonical = .atom a) :
    τ = .atom a := by
  cases τ with
  | atom => rwa [Term.canonical_atom] at same
  | node head args =>
    rw [Term.canonical_node] at same
    cases head <;> cases same

theorem exists_partner (acyclic : right.Acyclic)
    (factors : ∀ t, right.reading (fun ref => left.view (.cell ref)) t = (left.view t).canonical)
    (unbound : ref ∈ left.free) :
    ∃ other ∈ right.free, right.view (.cell ref) = .atom (.var other) ∧
      left.view (.cell other) = .atom (.var ref) := by
  obtain ⟨level, state⟩ := unbound
  have back := factors (.cell ref)
  rw [view_unbound state, Term.canonical_atom] at back
  have back := canonical_eq_atom back
  cases seen : right.view (.cell ref) with
  | node head args =>
    rw [seen, Term.subst_node] at back
    cases back
  | atom a =>
    rw [seen, Term.subst_atom] at back
    cases a with
    | missing | rigid => cases back
    | var other =>
      have met : .var other ∈ (right.view (.cell ref)).atoms := by simp [seen]
      exact ⟨other, ((var_mem_view (acyclic.finite _)).mp met).2, rfl, back⟩

theorem var_mem_rename (finite : s.Finite t) (f : Nat → Nat) (other : Nat) :
    .var other ∈ (s.reading (fun ref => .atom (.var (f ref))) t).atoms ↔
      ∃ ref ∈ s.free, s.Reaches t ref ∧ f ref = other := by
  induction finite using Finite.induction with
  | missing mark =>
    rw [reading_missing]
    constructor
    · intro member
      simp at member
    · intro met
      obtain ⟨ref, -, reach, -⟩ := met
      cases reach with
      | here leaf => simp [Ty.leaves] at leaf
      | through leaf => simp [Ty.leaves] at leaf
  | plain ref finite plain =>
    simp only [reaches_plain plain]
    cases state : s.state ref with
    | linked target => exact absurd state (plain target)
    | unbound level =>
      rw [reading_unbound state]
      simp [free, state, eq_comm]
    | generic =>
      rw [reading_generic state]
      simp [free, state]
  | linked ref target finite linked ih =>
    rw [reading_linked finite linked, ih]
    simp only [reaches_linked linked]
    constructor
    · intro met
      obtain ⟨next, unbound, reach, same⟩ := met
      exact ⟨next, unbound, .inr reach, same⟩
    · intro met
      obtain ⟨next, unbound, here | reach, same⟩ := met
      · obtain ⟨level, state⟩ := unbound
        rw [here, linked] at state
        cases state
      · exact ⟨next, unbound, reach, same⟩
  | node t head parts finite top ih =>
    obtain ⟨_, args, read, perm⟩ := reading_parts (s := s) (θ := fun ref => .atom (.var (f ref))) top
    rw [read, Term.atoms_node, List.mem_flatMap]
    simp only [perm.mem_iff, List.mem_map, exists_exists_and_eq_and, reaches_node top]
    constructor
    · intro met
      obtain ⟨part, member, inside⟩ := met
      obtain ⟨ref, unbound, reach, same⟩ := (ih part member).mp inside
      exact ⟨ref, unbound, ⟨part, member, reach⟩, same⟩
    · intro met
      obtain ⟨ref, unbound, ⟨part, member, reach⟩, same⟩ := met
      exact ⟨part, member, (ih part member).mpr ⟨ref, unbound, reach, same⟩⟩

/-- The unbound variables of one store stand for those of another. -/
structure Renames (f : Nat → Nat) (left right : Store) : Prop where
  bijective : Set.BijOn f left.free right.free
  view : ∀ t, ((left.view t).subst fun ref => .atom (.var (f ref))).canonical =
    (right.view t).canonical

theorem exists_renames (acyclic : left.Acyclic) (acyclic' : right.Acyclic)
    (factors : ∀ t, left.reading (fun ref => right.view (.cell ref)) t = (right.view t).canonical)
    (factors' : ∀ t, right.reading (fun ref => left.view (.cell ref)) t = (left.view t).canonical) :
    ∃ f, Renames f left right := by
  have partner : ∀ ref ∈ left.free, ∃ other ∈ right.free,
      right.view (.cell ref) = .atom (.var other) ∧ left.view (.cell other) = .atom (.var ref) :=
    fun ref => exists_partner acyclic' factors'
  choose! f unbound forth back using partner
  refine ⟨f, ⟨unbound, ?_, ?_⟩, fun t => ?_⟩
  · intro ref free ref' free' same
    have one := back ref free
    rw [same, back ref' free'] at one
    cases one
    rfl
  · intro other free
    obtain ⟨ref, free', -, shown⟩ := exists_partner acyclic factors free
    have image := forth ref free'
    rw [shown] at image
    cases image
    exact ⟨ref, free', rfl⟩
  · rw [← factors t, Store.reading]
    congr 1
    apply Term.subst_congr
    intro ref member
    exact (forth ref ((var_mem_view (acyclic.finite t)).mp member).2).symm

namespace Renames

variable {f : Nat → Nat}

theorem reaches (renames : Renames f left right) (acyclic : left.Acyclic) (acyclic' : right.Acyclic)
    (free : ref ∈ left.free) : left.Reaches t ref ↔ right.Reaches t (f ref) := by
  have same : left.reading (fun ref => .atom (.var (f ref))) t =
      right.reading (fun ref => .atom (.var ref)) t := by
    rw [Store.reading, Store.reading, Term.subst_var]
    exact renames.view t
  have onLeft := var_mem_rename (acyclic.finite t) f (f ref)
  have onRight := var_mem_rename (acyclic'.finite t) (fun ref => ref) (f ref)
  rw [same, onRight] at onLeft
  constructor
  · intro reach
    obtain ⟨_, -, reach, rfl⟩ := onLeft.mpr ⟨ref, free, reach, rfl⟩
    exact reach
  · intro reach
    have partner := renames.bijective.mapsTo free
    obtain ⟨other, free', reach, image⟩ := onLeft.mp ⟨f ref, partner, reach, rfl⟩
    rwa [← renames.bijective.injOn free' free image]

theorem level_eq (renames : Renames f left right) (acyclic : left.Acyclic) (acyclic' : right.Acyclic)
    (least : s.LeastLevels left) (least' : s.LeastLevels right)
    (state : left.state ref = .unbound level) : right.state (f ref) = .unbound level := by
  have free : ref ∈ left.free := ⟨level, state⟩
  obtain ⟨level', state'⟩ := renames.bijective.mapsTo free
  have merged : s.levelsMerged left ref = s.levelsMerged right (f ref) := by
    simp only [levelsMerged, renames.reaches acyclic acyclic' free]
  have same := (merged ▸ least ref level state).unique (least' (f ref) level' state')
  rw [same, state']

end Renames

def Turned (p q : Ty × Ty) : Prop := q = p ∨ q = p.swap

def Reordered (pairs pairs' : List (Ty × Ty)) : Prop :=
  ∃ turned, List.Forall₂ Turned pairs turned ∧ turned.Perm pairs'

theorem Reordered.symm (reordered : Reordered pairs pairs') : Reordered pairs' pairs := by
  obtain ⟨turned, sides, perm⟩ := reordered
  have back : List.Forall₂ Turned turned pairs := by
    refine .flip (sides.imp fun p q side => ?_)
    rcases side with rfl | rfl
    · exact .inl rfl
    · exact .inr p.swap_swap.symm
  exact List.perm_comp_forall₂ perm.symm back

theorem Reordered.all {P : Ty × Ty → Prop} (reordered : Reordered pairs pairs')
    (turn : ∀ p, P p → P p.swap) (all : ∀ p ∈ pairs, P p) : ∀ p ∈ pairs', P p := by
  obtain ⟨turned, sides, perm⟩ := reordered
  intro q member
  replace member := perm.mem_iff.mpr member
  clear perm
  induction sides with
  | nil => cases member
  | cons side _ ih =>
    obtain ⟨first, rest⟩ := List.forall_mem_cons.mp all
    rcases List.mem_cons.mp member with rfl | member
    · rcases side with rfl | rfl
      · exact first
      · exact turn _ first
    · exact ih rest member

/-- Neither the order in which equations are met nor the side from which each is read makes a
    difference. They are all met in one run if they are in the other, and then the unbound variables
    that are left match one to one: every type is read alike up to this renaming, and variables that
    match have one level. -/
theorem unifyEach_order_independent (wf : s.WellFormed)
    (regular : ∀ pair ∈ pairs, (s.view pair.1).Regular ∧ (s.view pair.2).Regular)
    (reordered : Reordered pairs pairs') :
    (s.Succeeds pairs ↔ s.Succeeds pairs') ∧
    (s.Succeeds pairs →
      let left := (s.unifyEach pairs).1
      let right := (s.unifyEach pairs').1
      ∃ f : Nat → Nat, Set.BijOn f left.free right.free ∧
        (∀ t, ((left.view t).subst fun ref => .atom (.var (f ref))).canonical =
          (right.view t).canonical) ∧
        ∀ ref level, left.state ref = .unbound level → right.state (f ref) = .unbound level) := by
  have regular : s.PairsRegular pairs := fun p member =>
    (regular p member).imp (throughout_regular wf.acyclic.finite)
      (throughout_regular wf.acyclic.finite)
  have regular' : s.PairsRegular pairs' := reordered.all (fun _ => And.symm) regular
  have turn : ∀ {xs ys θ}, Reordered xs ys → s.Solves θ xs → s.Solves θ ys :=
    fun reordered => reordered.all fun _ => Eq.symm
  have forth : s.Succeeds pairs → s.Succeeds pairs' := fun ok =>
    unifyEach_succeeds wf regular'
      (turn reordered ((unifyEach_solved wf regular ok).solves wf.acyclic))
  have back : s.Succeeds pairs' → s.Succeeds pairs := fun ok =>
    unifyEach_succeeds wf regular
      (turn reordered.symm ((unifyEach_solved wf regular' ok).solves wf.acyclic))
  refine ⟨⟨forth, back⟩, fun ok => ?_⟩
  have solved := unifyEach_solved wf regular ok
  have solved' := unifyEach_solved wf regular' (forth ok)
  obtain ⟨f, renames⟩ := exists_renames solved.acyclic solved'.acyclic
    (solved.factors solved' wf.acyclic (turn reordered.symm (solved'.solves wf.acyclic)))
    (solved'.factors solved wf.acyclic (turn reordered (solved.solves wf.acyclic)))
  refine ⟨f, renames.bijective, renames.view, fun ref level state => ?_⟩
  exact renames.level_eq solved.acyclic solved'.acyclic
    ((unifyEach_steps wf.unmarked pairs).leastLevels wf.unmarked)
    ((unifyEach_steps wf.unmarked pairs').leastLevels wf.unmarked) state

def crossed : Store :=
  { cells := #[⟨1, .unbound 3⟩, ⟨2, .unbound 2⟩, ⟨3, .unbound 5⟩, ⟨4, .linked (.cell 1)⟩] }

def crossedPairs : List (Ty × Ty) :=
  [(.cell 0, .cell 1),
   (.record [("x", .cell 2), ("y", .int)], .record [("y", .int), ("x", .cell 3)])]

theorem crossed_wellFormed : crossed.WellFormed := by
  refine ⟨acyclic_of_descending fun ref next links => ?_, ?_, ?_⟩
  · obtain ⟨target, linked, leaf⟩ := links
    rcases ref with _ | _ | _ | _ | ref
    all_goals cases linked
    simp only [Ty.leaves, List.mem_singleton, Leaf.cell.injEq] at leaf
    omega
  · intro ref other _ _ unbound unbound' same
    have number : ∀ {ref level}, crossed.state ref = .unbound level →
        (crossed.cell ref).id = ref + 1 := by
      intro ref level unbound
      rcases ref with _ | _ | _ | _ | ref
      all_goals cases unbound
      all_goals rfl
    rw [number unbound, number unbound'] at same
    omega
  · intro ref level unbound
    rcases ref with _ | _ | _ | _ | ref
    all_goals cases unbound
    all_goals decide

theorem unifyEach_order_independent_crossed :
    let left := (crossed.unifyEach crossedPairs).1
    let turned := crossedPairs.reverse.map Prod.swap
    let right := (crossed.unifyEach turned).1
    crossed.WellFormed ∧
      (∀ pair ∈ crossedPairs, (crossed.view pair.1).Regular ∧ (crossed.view pair.2).Regular) ∧
      Reordered crossedPairs turned ∧ crossed.Succeeds crossedPairs ∧ crossed.Succeeds turned ∧
      left.state 1 = .unbound 2 ∧ right.state 1 = .linked (.cell 2) ∧
      ∃ f : Nat → Nat, Set.BijOn f left.free right.free ∧ right.state (f 1) = .unbound 2 := by
  intro left turned right
  have regular : ∀ pair ∈ crossedPairs,
      (crossed.view pair.1).Regular ∧ (crossed.view pair.2).Regular := by decide
  have reordered : Reordered crossedPairs turned :=
    ⟨crossedPairs.map Prod.swap, .cons (.inr rfl) (.cons (.inr rfl) .nil), .swap _ _ _⟩
  have answers : (crossed.unifyEach crossedPairs).2 = [none, none] := rfl
  have ok : crossed.Succeeds crossedPairs := by simp [Succeeds, answers]
  obtain ⟨both, matched⟩ := unifyEach_order_independent crossed_wellFormed regular reordered
  obtain ⟨f, bijective, -, levels⟩ := matched ok
  exact ⟨crossed_wellFormed, regular, reordered, ok, both.mp ok, rfl, rfl, f, bijective,
    levels 1 2 rfl⟩

end LetPoly.Store
