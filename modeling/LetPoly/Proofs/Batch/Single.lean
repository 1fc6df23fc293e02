import LetPoly.Proofs.Batch.Prelude
import LetPoly.Proofs.Batch.Results

namespace LetPoly

namespace Batch

variable {b : Batch} {loose : Prop} {index gap n : Nat} {e : Expr} {final : Store} {t t' : Ty}
  {typed typed' : Expr}

structure Fits (b : Batch) (index : Nat) (e : Expr) : Prop where
  low : -(wordLimit : Int) ≤ b.start.nextId
  room : b.start.nextId + index * batchIdRange + batchIdRange < wordLimit
  few : (b.start.store.numbersSince (b.alone e).supply.store).card ≤ batchIdRange

theorem Fits.drawn (fits : b.Fits index e)
    (drawn : (b.mirror loose index gap).Drawn (b.alone e).supply n) : n ≤ batchIdRange := by
  have le : min n wordCount ≤ (b.start.store.numbersSince (b.alone e).supply.store).card :=
    drawn.le_card
  have few := fits.few
  simp only [batchIdRange, wordCount] at le few ⊢
  omega

theorem Holds.not_exhausts (holds : b.Holds loose index gap e final) (fits : b.Fits index e) :
    ¬ b.Exhausts index e := by
  obtain ⟨n, drawn⟩ := holds.drawn
  have few := fits.drawn drawn
  obtain ⟨low, room, -⟩ := fits
  have first := offset_nonneg index
  rw [exhausts_iff drawn, wrap64_of_isWord ⟨by omega, by omega⟩, wrap64_of_isWord ⟨by omega, by omega⟩]
  omega

theorem Holds.renumbered (holds : b.Holds loose index gap e final) (fits : b.Fits index e)
    (own : (b.mirror loose index gap).Own (b.alone e).supply.store.size t t') :
    (b.alone e).supply.store.Renumbered final (· + index * batchIdRange) t t' := by
  obtain ⟨n, drawn⟩ := holds.drawn
  have few := fits.drawn drawn
  obtain ⟨low, room, -⟩ := fits
  have first := offset_nonneg index
  have seen := (holds.lies.own_facing (Nat.le_refl _)).shown_eq own.own own.mates
  refine seen.trans (Term.map_congr fun a member => ?_)
  have moved : ∀ id, a.id? = some id →
      shiftWord (index * batchIdRange) id = id + index * batchIdRange := by
    intro id number
    obtain ⟨j, less, rfl⟩ := (drawn.made id).mp (holds.lies.made_of_shown own.own member number)
    change shiftWord _ (wrap64 (b.start.nextId + j)) = wrap64 (b.start.nextId + j) + _
    rw [shiftWord_wrap64, wrap64_of_isWord ⟨by omega, by omega⟩, wrap64_of_isWord ⟨by omega, by omega⟩]
  cases a with
  | missing => rfl
  | unbound id level => exact congrArg (Shown.unbound · level) (moved id rfl)
  | generic id => exact congrArg Shown.generic (moved id rfl)

theorem Copy.renumbered (copy : b.Copy loose index e gap typed typed' final) (fits : b.Fits index e) :
    typed.Renumbered (b.alone e).supply.store final (· + index * batchIdRange) typed' := by
  refine ⟨copy.alike.imp fun t t' own => copy.toHolds.renumbered fits own, ?_⟩
  refine (Mirror.typeIn_nodes (copy.lies.own_facing (Nat.le_refl _)) copy.alike).imp ?_
  rintro node node' ⟨t, t', known, known', own⟩
  exact ⟨t, t', known, known', copy.toHolds.renumbered fits own⟩

theorem Holds.renumbered_or_same (holds : b.Holds loose index gap e final) (fits : b.Fits index e)
    (scheme : (b.mirror loose index gap).Scheme (b.alone e).supply.store.size t t') :
    (b.alone e).supply.store.Renumbered final (· + index * batchIdRange) t t' ∨
      (b.alone e).supply.store.Renumbered final id t t' := by
  rcases scheme.kind with own | closed
  · exact .inl (holds.renumbered fits ⟨scheme.mates, own⟩)
  · exact .inr (holds.lies.sealed_facing.shown_eq closed scheme.mates)

end Batch

namespace Workspace

variable {w : Workspace} {scope : Nat} {level : Int} {expr : Expr} {exprs : List Expr}

def inferInClone (w : Workspace) (scope : Nat) (level : Int) (expr : Expr) : Inferred :=
  ((w.clone scope).2.infer (w.clone scope).1 level expr).1

theorem inferInClone_eq : w.inferInClone scope level expr =
    (Batch.mk (w.supply scope) level (w.env scope).bindings).alone expr := by
  have env : (w.clone scope).2.env (w.clone scope).1 = w.env scope := by
    simp only [clone, Workspace.env, Array.getElem?_push_size, Option.getD_some]
  simp only [inferInClone, infer, Batch.alone, supply, nextId, env]
  rfl

/-- Some binding is so deep that the level that marks a link comes up in it. -/
def MeetsLinkLevel (level : Int) (exprs : List Expr) : Prop :=
  ∃ expr ∈ exprs, ∃ k : Nat, k ≤ expr.letDepth ∧ wrap64 (level + k) = linkLevel

theorem not_meetsLinkLevel (word : IsWord level) (above : linkLevel < level)
    (shallow : ∀ expr ∈ exprs, expr.letDepth < 2 ^ 62) : ¬ MeetsLinkLevel level exprs := by
  rintro ⟨expr, member, k, le, marked⟩
  have less := shallow expr member
  simp only [IsWord, wordLimit] at word
  refine wrap64_add_ne_linkLevel above ?_ marked
  simp only [wordCount, linkLevel]
  omega

/-- Inferring a batch is inferring each of its expressions in a clone of the scope, with numbers that
    are moved on by as many ranges as expressions come before. The batch succeeds if all of these
    inferences do, and ends with the error of the first that fails otherwise. Nothing is asked of the
    level: only a fault, which is no error, takes a binding in which the level that marks a link comes
    up. The scope stays as it is. -/
theorem inferAll_eq_inferInClone
    (complete : ∀ entry ∈ (w.env scope).bindings.entries, w.store.Complete entry.2)
    (closed : ∀ entry ∈ (w.env scope).bindings.entries, w.store.NoUnbound entry.2)
    (low : -(wordLimit : Int) ≤ w.nextId scope)
    (room : w.nextId scope + exprs.length * batchIdRange < wordLimit)
    (few : ∀ expr ∈ exprs, (w.store.numbersSince
      (w.inferInClone scope level expr).supply.store).card ≤ batchIdRange) :
    let single := w.inferInClone scope level
    let batch := (w.inferAll (some scope) level false exprs).1.result
    let w' := (w.inferAll (some scope) level false exprs).2
    ((∃ results, batch = .ok results) ↔
      ∀ expr ∈ exprs, ∃ typed, (single expr).result = .ok typed) ∧
    (∀ results, batch = .ok results → results.length = exprs.length ∧
      ∀ (i : Nat) expr result, exprs[i]? = some expr → results[i]? = some result →
        ∃ typed, (single expr).result = .ok typed ∧
          typed.Renumbered (single expr).supply.store w'.store (· + i * batchIdRange) result) ∧
    (∀ error, batch = .error error → ∃ (i : Nat) (expr : Expr), exprs[i]? = some expr ∧
      (∀ j < i, ∀ earlier, exprs[j]? = some earlier → ∃ typed, (single earlier).result = .ok typed) ∧
      ((∃ cause cause' invalid, (single expr).result = .error (.failed cause invalid) ∧
          error = .failed i cause' ∧ cause'.message = cause.message ∧
          cause.Alike (fun t t' =>
            (single expr).supply.store.Renumbered w'.store (· + i * batchIdRange) t t' ∨
              (single expr).supply.store.Renumbered w'.store id t t') cause') ∨
        ∃ f, (single expr).result = .error (.fault f) ∧ error = .fault f ∧
          MeetsLinkLevel level exprs)) ∧
    (IsWord level → linkLevel < level → (∀ expr ∈ exprs, expr.letDepth < 2 ^ 62) →
      ¬ MeetsLinkLevel level exprs) ∧
    w'.envs = w.envs ∧ w'.counters = w.counters ∧
    ∀ entry ∈ (w.env scope).bindings.entries, w'.store.shown entry.2 = w.store.shown entry.2 := by
  intro single batch w'
  let b : Batch := ⟨w.supply scope, level, (w.env scope).bindings⟩
  have same : ∀ expr, single expr = b.alone expr := fun expr => inferInClone_eq
  have present : (w.env scope).bindings.hasMissing = false := by
    refine List.any_eq_false.mpr fun entry member missing => ?_
    cases type : entry.2 with
    | missing mark => exact (type ▸ complete entry member).ne_missing
    | _ => simp [Ty.isMissing, type] at missing
  have word : IsWord b.start.nextId := by
    have ranges := Batch.offset_nonneg exprs.length
    exact ⟨low, by change w.nextId scope < _; omega⟩
  -- the one thing that lets parts of a type be missing here is the level that marks a link
  have tells : b.Tells (MeetsLinkLevel level exprs) 0 exprs batch w'.store :=
    Batch.inferAll_tells present (fun entry member => (complete entry member).rooted _) closed word
      fun expr member k le marked => ⟨expr, member, k, le, marked⟩
  have fits : ∀ i expr, exprs[i]? = some expr → b.Fits i expr := by
    intro i expr inside
    refine ⟨low, ?_, same expr ▸ few expr (List.mem_of_getElem? inside)⟩
    have less := (List.getElem?_eq_some_iff.mp inside).1
    change w.nextId scope + _ + _ < _
    simp only [batchIdRange] at room ⊢
    omega
  simp only [same]
  refine ⟨tells.ok_iff fun i expr gap inside holds => ?_, fun results done => ?_, fun error fails => ?_,
    not_meetsLinkLevel, rfl, rfl, fun entry member => ?_⟩
  · exact holds.not_exhausts (fits i expr inside)
  · obtain ⟨length, each⟩ := (done ▸ tells).copies
    refine ⟨length, fun i expr result inside inside' => ?_⟩
    obtain ⟨_, gap, typed, there, copy, -⟩ := each i result inside'
    cases inside.symm.trans there
    rw [Nat.zero_add] at copy
    exact ⟨typed, copy.result, copy.renumbered (fits i expr inside)⟩
  · obtain ⟨i, expr, inside, before, stops⟩ := (fails ▸ tells).stops
    rw [Nat.zero_add] at stops
    refine ⟨i, expr, inside, before, ?_⟩
    cases stops with
    | failed holds stopped alike =>
      refine .inl ⟨_, _, _, stopped, rfl, alike.message_eq, alike.imp fun t t' scheme => ?_⟩
      exact holds.renumbered_or_same (fits i expr inside) scheme
    | fault stopped marked => exact .inr ⟨_, stopped, rfl, marked⟩
    | exhausted holds _ exhausts =>
      exact absurd exhausts (holds.not_exhausts (fits i expr inside))
  · have kept : w.store.Extends w'.store := (inferAll_grown _ false exprs w.store).kept
    have whole := complete entry member
    have unchanged : w.store.Same w'.store entry.2 :=
      fun ref reach => kept.cell ref (whole.reaches_inside reach)
    exact unchanged.shown_eq whole.finite

def linkedScope : Workspace where
  store := { cells := #[⟨3, .generic⟩, ⟨4, .linked (.fn [.cell 0] (.cell 0))⟩] }
  counters := #[5]
  envs := #[⟨⟨[("id", .cell 1)]⟩, 0⟩]

def linkedExprs : List Expr :=
  [.var {} "id" .unresolved .missing,
    .letIn {} (.var {} "k") (.fn {} [⟨{}, "x"⟩] (.var {} "id" .unresolved .missing) .missing)
      (.seq {} (.nil {} .missing) (.var {} "k" .unresolved .missing)) .missing]

theorem linkedScope_complete :
    ∀ entry ∈ (linkedScope.env 0).bindings.entries, linkedScope.store.Complete entry.2 := by
  have body : linkedScope.store.Complete (.fn [.cell 0] (.cell 0)) := by
    refine .of_parts rfl fun part member => ?_
    have same : part = .cell 0 := by simpa using member
    exact same ▸ .of_plain (by decide) fun target linked => by cases linked
  rintro entry (_ | ⟨_, ⟨⟩⟩)
  exact .of_link (by decide) rfl body

theorem linkedScope_closed :
    ∀ entry ∈ (linkedScope.env 0).bindings.entries, linkedScope.store.NoUnbound entry.2 :=
  openNames_eq_nil_iff.mp (by decide +kernel)

theorem inferAll_eq_inferInClone_linked :
    let single := linkedScope.inferInClone 0 1
    let batch := linkedScope.inferAll (some 0) 1 false linkedExprs
    (∀ entry ∈ (linkedScope.env 0).bindings.entries,
      linkedScope.store.Complete entry.2 ∧ linkedScope.store.NoUnbound entry.2) ∧
    linkedScope.nextId 0 + linkedExprs.length * batchIdRange < wordLimit ∧
    (∀ expr ∈ linkedExprs,
      (linkedScope.store.numbersSince (single expr).supply.store).card ≤ batchIdRange) ∧
    ∃ results, batch.1.result = .ok results ∧ results.length = 2 ∧
      ∀ (i : Nat) expr result, linkedExprs[i]? = some expr → results[i]? = some result →
        ∃ typed, (single expr).result = .ok typed ∧
          typed.Renumbered (single expr).supply.store batch.2.store (· + i * batchIdRange) result := by
  intro single batch
  have room : linkedScope.nextId 0 + linkedExprs.length * batchIdRange < wordLimit := by decide
  have few : ∀ expr ∈ linkedExprs,
      (linkedScope.store.numbersSince (single expr).supply.store).card ≤ batchIdRange := by
    decide +kernel
  obtain ⟨succeeds, each, -⟩ := inferAll_eq_inferInClone linkedScope_complete linkedScope_closed
    (by decide) room few
  have accepted : ∀ expr ∈ linkedExprs, (single expr).result.isOk = true := by decide +kernel
  obtain ⟨results, done⟩ := succeeds.mpr fun expr member => by
    have ok := accepted expr member
    cases result : (single expr).result with
    | error stop => simp [result, Except.isOk, Except.toBool] at ok
    | ok typed => exact ⟨typed, rfl⟩
  exact ⟨fun entry member => ⟨linkedScope_complete entry member, linkedScope_closed entry member⟩,
    room, few, results, done, each results done⟩

end Workspace

end LetPoly
