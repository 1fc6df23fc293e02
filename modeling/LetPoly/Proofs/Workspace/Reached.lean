import LetPoly.Proofs.Budget
import LetPoly.Proofs.Unification.Endings
import LetPoly.Proofs.Workspace.History

namespace LetPoly

open Relation (TransGen)

namespace Store

variable {s s' : Store}

theorem acyclic_of_links (acyclic : s'.Acyclic)
    (kept : ∀ ref target, s.state ref = .linked target → s'.state ref = .linked target) :
    s.Acyclic := by
  intro ref cycle
  refine acyclic ref (TransGen.mono (fun ref next links => ?_) _ _ cycle)
  obtain ⟨target, linked, leaf⟩ := links
  exact ⟨target, kept ref target linked, leaf⟩

theorem Grown.sound (grown : s.Grown s') (sound : s.Sound)
    (unlinked : ∀ ref target, s.size ≤ ref → s'.state ref ≠ .linked target) : s'.Sound := by
  have old : ∀ ref target, s'.state ref = .linked target → s.state ref = .linked target := by
    intro ref target linked
    by_cases inside : ref < s.size
    · rw [← grown.kept.state inside, linked]
    · exact absurd linked (unlinked ref target (Nat.not_lt.mp inside))
  exact ⟨acyclic_of_links sound.acyclic old, grown.unmarked sound.unmarked,
    fun ref target linked => sound.present ref target (old ref target linked)⟩

end Store

namespace Workspace

variable {w : Workspace} {action : Action}

/-- Types are solved in which nothing is missing, and no variable is made at the level that marks
    links: solving alone makes them. -/
structure Allows (w : Workspace) (action : Action) : Prop where
  present : ∀ a b, action = .unify a b → a.Present ∧ b.Present
  unlinked : (∀ a b, action ≠ .unify a b) → ∀ ref target, w.store.size ≤ ref →
    (w.act action).store.state ref ≠ .linked target

inductive Reached : Workspace → Prop
  | start : Reached {}
  | act {w : Workspace} {action : Action} (before : Reached w) (allowed : w.Allows action) :
    Reached (w.act action)

theorem Allows.sound (allowed : w.Allows action) (sound : w.store.Sound) :
    (w.act action).store.Sound := by
  by_cases solving : ∃ a b, action = .unify a b
  · obtain ⟨a, b, rfl⟩ := solving
    obtain ⟨presentA, presentB⟩ := allowed.present a b rfl
    obtain ⟨bound, ends⟩ := Store.unify_ends sound presentA presentB
    exact ends.sound
  · have other : ∀ a b, action ≠ .unify a b := fun a b same => solving ⟨a, b, same⟩
    exact (act_grown other).sound sound (allowed.unlinked other)

theorem Reached.sound (reached : Reached w) : w.store.Sound := by
  induction reached with
  | start =>
    have rigid : ∀ ref, ({} : Workspace).store.state ref = .generic := fun _ => rfl
    refine ⟨fun ref cycle => ?_, fun {ref level} free => ?_, fun ref target linked => ?_⟩
    · obtain ⟨next, ⟨target, linked, -⟩, -⟩ := TransGen.head'_iff.mp cycle
      rw [rigid] at linked
      cases linked
    · rw [rigid] at free
      cases free
    · rw [rigid] at linked
      cases linked
  | act _ allowed ih => exact allowed.sound ih

/-- Whatever has been done, with failures among it and numbers shared, links do not come back. So
    going through a type ends, and so does solving, on every store that it passes: neither a link nor
    a level is refused, and a failure is a mismatch or an occurs check. Behind the latter, the
    variable that was not bound is still unbound, and its number is met in the type. -/
theorem reached_terminates (reached : Reached w) :
    w.store.Acyclic ∧ (∀ t, w.store.Terminates t) ∧
    ∀ a b, a.Present → b.Present →
      let solved := w.store.unify a b
      (∀ n, w.store.unifyDepth a b ≤ n →
        Store.unifyWithin (.mismatch a b) n w.store a b = solved) ∧
      (∀ between, w.store.Forward between → between.Forward solved.1 →
        ∀ t, between.Terminates t) ∧
      ∀ error, solved.2 = some error → error = .mismatch a b ∨
        ∃ id t, error = .recursive id t ∧ solved.1.Refuses a b id t := by
  have sound := reached.sound
  refine ⟨sound.acyclic, fun t => (sound.acyclic.finite t).terminates, ?_⟩
  intro a b presentA presentB solved
  obtain ⟨bound, ends⟩ := Store.unify_ends sound presentA presentB
  refine ⟨fun n enough => Store.unifyWithin_more (fun cyclic => ?_) enough, ?_, ends.failed⟩
  · rcases ends.failed .cyclic cyclic with same | ⟨_, _, same, -⟩ <;> cases same
  · intro between _ later t
    have acyclic := Store.acyclic_of_links ends.sound.acyclic fun _ _ => later.linked
    exact (acyclic.finite t).terminates

theorem allows_newVar {level : Int} (unmarked : level ≠ linkLevel) (id : Int) :
    w.Allows (.newVar id level) := by
  refine ⟨fun _ _ solving => ?_, fun _ ref target outside linked => ?_⟩
  · cases solving
  · have inside := Store.lt_size_of_linked linked
    simp only [act, Store.size_alloc] at inside
    obtain rfl : ref = w.store.size := by omega
    simp only [act, Store.state_alloc_self, VarState.ofLevel, unmarked, if_false] at linked
    split at linked <;> cases linked

theorem allows_unify {a b : Ty} (presentA : a.Present) (presentB : b.Present) :
    w.Allows (.unify a b) := by
  refine ⟨fun x y same => ?_, fun other => absurd rfl (other a b)⟩
  cases same
  exact ⟨presentA, presentB⟩

def sharedNumber : Workspace :=
  ({} : Workspace).actAll
    [.newVar 1 1, .newVar 1 2, .newVar 2 3, .unify (.cell 2) (.list (.cell 0))]

theorem sharedNumber_reached : Reached sharedNumber := by
  have present : (Ty.cell 2).Present ∧ (Ty.list (.cell 0)).Present := by
    constructor <;> intro mark member <;>
      simp [Ty.list, Ty.leaves, Ty.leavesOfList] at member
  have third := ((Reached.start.act (allows_newVar (show (1 : Int) ≠ linkLevel by decide) 1)).act
    (allows_newVar (show (2 : Int) ≠ linkLevel by decide) 1)).act
    (allows_newVar (show (3 : Int) ≠ linkLevel by decide) 2)
  exact third.act (allows_unify present.1 present.2)

theorem reached_terminates_sharedNumber :
    let a := Ty.tuple [.cell 2, .cell 1]
    let b := Ty.tuple [.list (.cell 0), .list (.cell 2)]
    let solved := sharedNumber.store.unify a b
    Reached sharedNumber ∧ a.Present ∧ b.Present ∧ sharedNumber.store.Acyclic ∧
      sharedNumber.store.Terminates a ∧ solved.2 = some (.recursive 1 (.list (.cell 2))) ∧
      solved.1.Refuses a b 1 (.list (.cell 2)) := by
  intro a b solved
  have presentA : a.Present := by
    intro mark member
    simp [a, Ty.leaves, Ty.leavesOfList] at member
  have presentB : b.Present := by
    intro mark member
    simp [b, Ty.list, Ty.leaves, Ty.leavesOfList] at member
  have answer : solved.2 = some (.recursive 1 (.list (.cell 2))) := rfl
  obtain ⟨acyclic, terminates, solving⟩ := reached_terminates sharedNumber_reached
  obtain ⟨-, -, failed⟩ := solving a b presentA presentB
  rcases failed _ answer with same | ⟨id, t, same, refuses⟩
  · cases same
  · cases same
    exact ⟨sharedNumber_reached, presentA, presentB, acyclic, terminates a, answer, refuses⟩

end Workspace

end LetPoly
