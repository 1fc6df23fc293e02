import LetPoly.Proofs.Tree
import LetPoly.Store.Basic
import Mathlib.Data.Finset.Card
import Mathlib.Data.Finset.Range
import Mathlib.Logic.Relation

namespace LetPoly

theorem VarState.ofLevel_eq_linked {level : Int} {target : Ty}
    (linked : VarState.ofLevel level = .linked target) : level = linkLevel ∧ target = .missing := by
  rw [VarState.ofLevel] at linked
  split at linked
  · cases linked
  · split at linked
    · rename_i same
      cases linked
      exact ⟨same, rfl⟩
    · cases linked

namespace Store

open Relation (TransGen ReflTransGen)

variable {s : Store} {t target : Ty} {ref next other : Nat}

def LinksTo (s : Store) (ref next : Nat) : Prop :=
  ∃ target, s.state ref = .linked target ∧ .cell next ∈ target.leaves

def Acyclic (s : Store) : Prop := ∀ ref, ¬ TransGen s.LinksTo ref ref

/-- The property holds of a type and of all types that links lead to from there, and the links come
    to an end. -/
inductive Throughout (s : Store) (P : Ty → Prop) : Ty → Prop
  | intro {t : Ty} (here : P t)
      (below : ∀ ref target, .cell ref ∈ t.leaves → s.state ref = .linked target →
        s.Throughout P target) : Throughout s P t

def Finite (s : Store) (t : Ty) : Prop := s.Throughout (fun _ => True) t

/-- The cell is met in the type, or in a type that a link leads to from there. -/
inductive Reaches (s : Store) : Ty → Nat → Prop
  | here {t : Ty} {ref : Nat} (leaf : .cell ref ∈ t.leaves) : Reaches s t ref
  | through {t target : Ty} {ref other : Nat} (leaf : .cell ref ∈ t.leaves)
      (linked : s.state ref = .linked target) (rest : Reaches s target other) : Reaches s t other

def Shallow (s : Store) : Nat → Ty → Prop
  | 0, t => ∀ ref target, .cell ref ∈ t.leaves → s.state ref ≠ .linked target
  | n + 1, t => ∀ ref target, .cell ref ∈ t.leaves → s.state ref = .linked target →
      s.Shallow n target

theorem Shallow.link {n : Nat} (shallow : s.Shallow n t) (leaf : .cell ref ∈ t.leaves)
    (linked : s.state ref = .linked target) : ∃ m, n = m + 1 ∧ s.Shallow m target := by
  cases n with
  | zero => exact absurd linked (shallow ref target leaf)
  | succ n => exact ⟨n, rfl, shallow ref target leaf linked⟩

theorem lt_size_of_state (outside : s.state ref ≠ .generic) : ref < s.size := by
  by_contra bound
  apply outside
  simp only [state, cell, size, Nat.not_lt] at bound ⊢
  simp [Array.getElem?_eq_none bound]

theorem lt_size_of_linked (linked : s.state ref = .linked target) : ref < s.size :=
  lt_size_of_state (by simp [linked])

theorem lt_size_of_unbound {level : Int} (free : s.state ref = .unbound level) : ref < s.size :=
  lt_size_of_state (by simp [free])

namespace Throughout

variable {P Q : Ty → Prop}

theorem holds (all : s.Throughout P t) : P t := by
  cases all
  assumption

theorem link (all : s.Throughout P t) (leaf : .cell ref ∈ t.leaves)
    (linked : s.state ref = .linked target) : s.Throughout P target := by
  cases all with
  | intro here below => exact below ref target leaf linked

theorem imp (all : s.Throughout P t) (weaker : ∀ t, P t → Q t) : s.Throughout Q t := by
  induction all with
  | intro here below ih => exact .intro (weaker _ here) ih

theorem finite (all : s.Throughout P t) : s.Finite t := all.imp fun _ _ => True.intro

theorem part {head : Head} {parts : List Ty} (all : s.Throughout P t)
    (top : t.node? = some (head, parts)) {part : Ty} (member : part ∈ parts) (here : P part) :
    s.Throughout P part :=
  .intro here fun _ _ leaf linked => all.link (Ty.leaves_part_subset top member leaf) linked

end Throughout

namespace Finite

theorem part {head : Head} {parts : List Ty} (finite : s.Finite t)
    (top : t.node? = some (head, parts)) {part : Ty} (member : part ∈ parts) : s.Finite part :=
  Throughout.part finite top member True.intro

theorem link (finite : s.Finite (.cell ref)) (linked : s.state ref = .linked target) :
    s.Finite target :=
  Throughout.link finite (by simp [Ty.leaves]) linked

@[elab_as_elim]
theorem induction {motive : (t : Ty) → s.Finite t → Prop}
    (missing : ∀ mark finite, motive (.missing mark) finite)
    (plain : ∀ ref finite, (∀ target, s.state ref ≠ .linked target) → motive (.cell ref) finite)
    (linked : ∀ ref target (finite : s.Finite (.cell ref)) (linked : s.state ref = .linked target),
      motive target (finite.link linked) → motive (.cell ref) finite)
    (node : ∀ t head parts (finite : s.Finite t) (top : t.node? = some (head, parts)),
      (∀ part (member : part ∈ parts), motive part (finite.part top member)) → motive t finite)
    {t : Ty} (finite : s.Finite t) : motive t finite := by
  induction finite with
  | @intro t _ below ih =>
    have inside : ∀ u (finite : s.Finite u), u.leaves ⊆ t.leaves → motive u finite := by
      intro u
      induction u using Ty.partsInduction with
      | leaf leaf =>
        intro finite subset
        cases leaf with
        | missing mark => exact missing mark finite
        | cell ref =>
          have met : .cell ref ∈ t.leaves := subset (by simp)
          cases state : s.state ref with
          | linked target => exact linked ref target finite state (ih ref target met state)
          | unbound level => exact plain ref finite (by simp [state])
          | generic => exact plain ref finite (by simp [state])
      | node u head parts top ih =>
        intro finite subset
        exact node u head parts finite top fun part member =>
          ih part member _ fun leaf met => subset (Ty.leaves_part_subset top member met)
    exact inside t _ fun _ met => met

theorem not_cyclic (finite : s.Finite t) (leaf : .cell ref ∈ t.leaves) :
    ¬ TransGen s.LinksTo ref ref := by
  induction finite generalizing ref with
  | intro _ below ih =>
    intro cycle
    obtain ⟨next, ⟨target, linked, inside⟩, rest⟩ := TransGen.head'_iff.mp cycle
    -- the cycle can be entered one link later
    have later : TransGen s.LinksTo next next := TransGen.tail' rest ⟨target, linked, inside⟩
    exact ih ref target leaf linked inside later

end Finite

theorem Reaches.mono {u : Ty} (subset : t.leaves ⊆ u.leaves) (reach : s.Reaches t ref) :
    s.Reaches u ref := by
  cases reach with
  | here leaf => exact .here (subset leaf)
  | through leaf linked rest => exact .through (subset leaf) linked rest

theorem reaches_node {head : Head} {parts : List Ty} (top : t.node? = some (head, parts)) :
    s.Reaches t ref ↔ ∃ part ∈ parts, s.Reaches part ref := by
  constructor
  · intro reach
    cases reach with
    | here leaf =>
      rw [Ty.leaves_of_node top] at leaf
      obtain ⟨part, member, leaf⟩ := List.mem_flatMap.mp leaf
      exact ⟨part, member, .here leaf⟩
    | through leaf linked rest =>
      rw [Ty.leaves_of_node top] at leaf
      obtain ⟨part, member, leaf⟩ := List.mem_flatMap.mp leaf
      exact ⟨part, member, .through leaf linked rest⟩
  · rintro ⟨part, member, reach⟩
    exact reach.mono (Ty.leaves_part_subset top member)

theorem reaches_linked (linked : s.state ref = .linked target) :
    s.Reaches (.cell ref) other ↔ other = ref ∨ s.Reaches target other := by
  constructor
  · intro reach
    cases reach with
    | here leaf =>
      simp only [Ty.leaves, List.mem_singleton, Leaf.cell.injEq] at leaf
      exact .inl leaf
    | through leaf link rest =>
      simp only [Ty.leaves, List.mem_singleton, Leaf.cell.injEq] at leaf
      subst leaf
      rw [linked] at link
      cases link
      exact .inr rest
  · rintro (rfl | reach)
    · exact .here (by simp [Ty.leaves])
    · exact .through (by simp [Ty.leaves]) linked reach

theorem reaches_plain (plain : ∀ target, s.state ref ≠ .linked target) :
    s.Reaches (.cell ref) other ↔ other = ref := by
  constructor
  · intro reach
    cases reach with
    | here leaf => simpa [Ty.leaves] using leaf
    | through leaf link rest =>
      simp only [Ty.leaves, List.mem_singleton, Leaf.cell.injEq] at leaf
      subst leaf
      exact absurd link (plain _)
  · rintro rfl
    exact .here (by simp [Ty.leaves])

open Classical in
noncomputable def rank (s : Store) (ref : Nat) : Nat :=
  ((Finset.range s.size).filter (ReflTransGen s.LinksTo ref)).card

theorem rank_le_size (s : Store) (ref : Nat) : s.rank ref ≤ s.size := by
  classical
  exact (Finset.card_filter_le _ _).trans (Finset.card_range _).le

theorem rank_pos (linked : s.state ref = .linked target) : 0 < s.rank ref := by
  classical
  apply Finset.card_pos.mpr
  exact ⟨ref, by simp [lt_size_of_linked linked, ReflTransGen.refl]⟩

theorem rank_lt (acyclic : ¬ TransGen s.LinksTo ref ref) (links : s.LinksTo ref next) :
    s.rank next < s.rank ref := by
  classical
  obtain ⟨target, linked, -⟩ := id links
  apply Finset.card_lt_card
  refine ⟨?_, ?_⟩
  · intro other member
    simp only [Finset.mem_filter] at member ⊢
    exact ⟨member.1, .head links member.2⟩
  · intro subset
    have self : ref ∈ (Finset.range s.size).filter (ReflTransGen s.LinksTo ref) := by
      simp [lt_size_of_linked linked, ReflTransGen.refl]
    have back := (Finset.mem_filter.mp (subset self)).2
    exact acyclic (TransGen.head' links back)

theorem Acyclic.finite (acyclic : s.Acyclic) (t : Ty) : s.Finite t := by
  have bounded : ∀ n (t : Ty), (∀ ref, .cell ref ∈ t.leaves → s.rank ref ≤ n) → s.Finite t := by
    intro n
    induction n with
    | zero =>
      intro t bound
      refine .intro True.intro fun ref target leaf linked => ?_
      have positive := rank_pos linked
      have zero := bound ref leaf
      omega
    | succ n ih =>
      intro t bound
      refine .intro True.intro fun ref target leaf linked => ih target fun next inside => ?_
      have smaller := rank_lt (acyclic ref) ⟨target, linked, inside⟩
      have limit := bound ref leaf
      omega
  exact bounded s.size t fun ref _ => s.rank_le_size ref

theorem acyclic_of_finite (finite : ∀ t, s.Finite t) : s.Acyclic := by
  intro ref
  exact (finite (.cell ref)).not_cyclic (by simp [Ty.leaves])

theorem acyclic_of_descending (descending : ∀ ref next, s.LinksTo ref next → next < ref) :
    s.Acyclic := by
  intro ref cycle
  have below : ∀ next, TransGen s.LinksTo ref next → next < ref := by
    intro next path
    induction path with
    | single links => exact descending _ _ links
    | tail _ links ih => exact Nat.lt_trans (descending _ _ links) ih
  exact Nat.lt_irrefl ref (below ref cycle)

/-- Links that come to an end do so within as many steps as there are cells. -/
theorem Finite.shallow (finite : s.Finite t) : s.Shallow s.size t := by
  have bounded : ∀ n, (∀ ref, .cell ref ∈ t.leaves → s.rank ref ≤ n) → s.Shallow n t := by
    induction finite with
    | @intro t here below ih =>
      intro n bound
      cases n with
      | zero =>
        intro ref target leaf linked
        have positive := rank_pos linked
        have zero := bound ref leaf
        omega
      | succ n =>
        intro ref target leaf linked
        apply ih ref target leaf linked n
        intro next inside
        have acyclic := Finite.not_cyclic (.intro here below) leaf
        have smaller := rank_lt acyclic ⟨target, linked, inside⟩
        have limit := bound ref leaf
        omega
  exact bounded s.size fun ref _ => s.rank_le_size ref

theorem headWithin_closed {Q : Ty → Prop}
    (closed : ∀ ref target, s.state ref = .linked target → Q (.cell ref) → Q target)
    (start : Q t) (m : Nat) : Q (s.headWithin m t) := by
  induction m generalizing t with
  | zero => exact start
  | succ m ih =>
    cases t with
    | cell ref =>
      cases state : s.state ref with
      | linked target =>
        simp only [headWithin, state]
        exact ih (closed ref target state start)
      | unbound | generic => simpa only [headWithin, state] using start
    | _ => exact start

theorem head_closed {Q : Ty → Prop}
    (closed : ∀ ref target, s.state ref = .linked target → Q (.cell ref) → Q target)
    (start : Q t) : Q (s.head t) :=
  headWithin_closed closed start s.depth

theorem headWithin_unlinked {n m : Nat} (shallow : s.Shallow n t) (enough : n < m)
    (top : s.headWithin m t = .cell ref) : s.state ref ≠ .linked target := by
  induction m generalizing n t with
  | zero => omega
  | succ m ih =>
    cases t with
    | cell other =>
      cases state : s.state other with
      | linked next =>
        simp only [headWithin, state] at top
        obtain ⟨k, rfl, below⟩ := shallow.link (by simp [Ty.leaves]) state
        exact ih below (by omega) top
      | unbound | generic =>
        simp only [headWithin, state, Ty.cell.injEq] at top
        simp [← top, state]
    | _ => simp [headWithin] at top

theorem head_unlinked (finite : s.Finite t) (top : s.head t = .cell ref) :
    s.state ref ≠ .linked target :=
  headWithin_unlinked finite.shallow (Nat.lt_succ_self s.size) top

theorem Throughout.head {P : Ty → Prop} (all : s.Throughout P t) : s.Throughout P (s.head t) :=
  head_closed (fun _ _ linked whole => whole.link (by simp [Ty.leaves]) linked) all

end Store

end LetPoly
