import LetPoly.Proofs.Batch.Prelude
import LetPoly.Proofs.Batch.Results

namespace LetPoly

namespace Store

variable {s s' : Store} {t : Ty} {ref : Nat} {level : Int} {within : Nat → Prop}

def numbers (s : Store) (t : Ty) : List Int := (s.shown t).atoms.filterMap Shown.id?

theorem mem_numbers {id : Int} : id ∈ s.numbers t ↔ ∃ a ∈ (s.shown t).atoms, a.id? = some id :=
  List.mem_filterMap

theorem id_mem_numbers (finite : s.Finite t) (reach : s.Reaches t ref)
    (free : s.state ref = .unbound level) : (s.cell ref).id ∈ s.numbers t := by
  have member : .var ref ∈ (s.view t).atoms := (var_mem_view finite).mpr ⟨reach, level, free⟩
  refine mem_numbers.mpr ⟨.unbound (s.cell ref).id level, ?_, rfl⟩
  rw [shown, Term.atoms_map]
  refine List.mem_map.mpr ⟨.var ref, member, ?_⟩
  simp only [shownAtom, free]

theorem unifyEach_same {pairs : List (Ty × Ty)} (unmarked : s.Unmarked)
    (apart : ∀ pair ∈ pairs, ∀ ref level, s.Reaches pair.1 ref ∨ s.Reaches pair.2 ref →
      s.state ref = .unbound level → ¬ s.Reaches t ref) : s.Same (s.unifyEach pairs).1 t := by
  have steps : Steps (fun ref => ∃ pair ∈ pairs, s.Reaches pair.1 ref ∨ s.Reaches pair.2 ref) s
      (s.unifyEach pairs).1 :=
    unifyEach_steps_within unmarked fun pair member ref reach => ⟨pair, member, reach⟩
  intro ref reach
  refine (steps.frame ref).resolve_right ?_
  rintro ⟨⟨pair, member, met⟩, level, free⟩
  exact apart pair member ref level met free reach

theorem size_unifyEach (unmarked : s.Unmarked) (pairs : List (Ty × Ty)) :
    (s.unifyEach pairs).1.size = s.size :=
  ((unifyEach_steps unmarked pairs).forward unmarked).size

end Store

namespace Expr

def numbers (s : Store) (e : Expr) : List Int := (e.told s).flatMap s.numbers

/-- The cell is met in a type that an inferred tree tells. -/
def Touches (s : Store) (e : Expr) (ref : Nat) : Prop := ∃ t ∈ e.told s, s.Reaches t ref

end Expr

namespace Batch

variable {b : Batch} {loose : Prop} {index gap n : Nat} {e typed typed' : Expr} {final later : Store}
  {t : Ty} {id level : Int}

theorem drawn_le (drawn : (b.mirror loose index gap).Drawn (b.alone e).supply n)
    (fits : ¬ b.Exhausts index e) (low : -(wordLimit : Int) ≤ b.start.nextId)
    (below : b.start.nextId + index * batchIdRange + n < wordLimit) : n ≤ batchIdRange := by
  have first := offset_nonneg index
  rw [exhausts_iff drawn, Int.not_lt, wrap64_of_isWord ⟨by omega, by omega⟩] at fits
  have range : 0 ≤ batchIdRange := by decide
  have ends : wrap64 (b.start.nextId + index * batchIdRange + batchIdRange) ≤
      b.start.nextId + index * batchIdRange + batchIdRange := wrap64_le (by omega)
  omega

namespace Copy

variable (copy : b.Copy loose index e gap typed typed' final)
include copy

theorem exists_own (member : t ∈ typed'.told final) :
    ∃ u, (b.mirror loose index gap).Own (b.alone e).supply.store.size u t := by
  have told := Mirror.told_alike (copy.lies.own_facing (Nat.le_refl _)) copy.alike
  obtain ⟨u, -, own⟩ := exists_of_forall₂ told member
  exact ⟨u, own⟩

theorem finite (member : t ∈ typed'.told final) : final.Finite t := by
  obtain ⟨u, own⟩ := copy.exists_own member
  exact (copy.lies.own_facing (Nat.le_refl _)).finite_mate own.own own.mates

theorem drawn_of_mem_numbers (drawn : (b.mirror loose index gap).Drawn (b.alone e).supply n)
    (member : id ∈ typed'.numbers final) :
    ∃ j < n, id = wrap64 (b.start.nextId + index * batchIdRange + j) := by
  obtain ⟨t, told, member⟩ := List.mem_flatMap.mp member
  obtain ⟨u, own⟩ := copy.exists_own told
  obtain ⟨a, seen, number⟩ := Store.mem_numbers.mp member
  rw [(copy.lies.own_facing (Nat.le_refl _)).shown_eq own.own own.mates, Term.atoms_map] at seen
  obtain ⟨before, met, rfl⟩ := List.mem_map.mp seen
  rw [Shown.id?_renumber] at number
  obtain ⟨first, known, rfl⟩ := Option.map_eq_some_iff.mp number
  obtain ⟨j, less, rfl⟩ := (drawn.made first).mp (copy.lies.made_of_shown own.own met known)
  refine ⟨j, less, ?_⟩
  change shiftWord _ (wrap64 (b.start.nextId + j)) = _
  rw [shiftWord_wrap64, Int.add_right_comm]

theorem mem_range (fits : ¬ b.Exhausts index e) (low : -(wordLimit : Int) ≤ b.start.nextId)
    (below : b.start.nextId + index * batchIdRange +
      (b.start.store.numbersSince (b.alone e).supply.store).card < wordLimit)
    (member : id ∈ typed'.numbers final) :
    b.start.nextId + index * batchIdRange ≤ id ∧
      id < b.start.nextId + (index + 1) * batchIdRange := by
  have first := offset_nonneg index
  obtain ⟨n, drawn⟩ := copy.drawn
  have count : min n wordCount ≤ (b.start.store.numbersSince (b.alone e).supply.store).card :=
    drawn.le_card
  -- had the run drawn all words, it would have left as many numbers in the store
  have below : b.start.nextId + index * batchIdRange + n < wordLimit := by
    simp only [wordLimit, wordCount] at low below count ⊢
    omega
  have le := drawn_le drawn fits low below
  obtain ⟨j, less, rfl⟩ := copy.drawn_of_mem_numbers drawn member
  rw [wrap64_of_isWord ⟨by omega, by omega⟩, Int.add_mul, Int.one_mul]
  omega

theorem told_eq (same : ∀ t ∈ typed'.told final, final.Same later t) :
    typed'.told later = typed'.told final := by
  -- a node has its type from what is written into the tree, at most up to links
  have heads : typed.Alike (fun _ t => later.head t = final.head t) typed' := by
    refine (copy.alike.and_written (Q := fun t => later.head t = final.head t) ?_).imp
      fun _ _ both => both.2
    intro node member t written
    have told : t ∈ typed'.told final := Expr.mem_told.mpr ⟨node, member, .inr written⟩
    exact (same t told).head_eq (copy.finite told)
  have each : ∀ node ∈ typed'.nodes, node.typeIn later = node.typeIn final := by
    intro node member
    obtain ⟨before, -, alike⟩ := exists_of_forall₂ heads.nodes member
    exact alike.typeIn_eq
  simp only [Expr.told, List.flatMap_def]
  congr 1
  exact List.map_congr_left fun node member => by rw [each node member]

theorem id_mem_numbers {ref : Nat} (touches : typed'.Touches final ref)
    (free : final.state ref = .unbound level) : (final.cell ref).id ∈ typed'.numbers final := by
  obtain ⟨t, told, reach⟩ := touches
  exact List.mem_flatMap.mpr ⟨t, told, Store.id_mem_numbers (copy.finite told) reach free⟩

theorem unifyEach_eq {pairs : List (Ty × Ty)} (unmarked : final.Unmarked)
    (apart : ∀ pair ∈ pairs, ∀ ref level, final.Reaches pair.1 ref ∨ final.Reaches pair.2 ref →
      final.state ref = .unbound level → ¬ typed'.Touches final ref) :
    let later := (final.unifyEach pairs).1
    typed'.told later = typed'.told final ∧
      ∀ t ∈ typed'.told final, later.resolve t = final.resolve t ∧ later.shown t = final.shown t := by
  intro later
  have same : ∀ t ∈ typed'.told final, final.Same later t := by
    refine fun t told => Store.unifyEach_same unmarked fun pair member ref level met free reach => ?_
    exact apart pair member ref level met free ⟨t, told, reach⟩
  refine ⟨copy.told_eq same, fun t told => ⟨?_, (same t told).shown_eq (copy.finite told)⟩⟩
  exact (same t told).resolve_eq (Store.size_unifyEach unmarked pairs)

end Copy

end Batch

variable {level base : Int} {env : Bindings} {es results : List Expr} {s : Store} {cancelled : Bool}

/-- The results of a batch are isolated from one another and from the scope, as long as the numbers
    that are drawn do not come around. No unbound variable is met in the scope, and each result has
    its numbers from a range of its own, so that no two of them have a number or an unbound variable
    in common. Solving anything that holds no unbound variable of the other results leaves their
    types, and the types of the scope, as they are. -/
theorem inferAll_isolated (unmarked : s.Unmarked)
    (rooted : ∀ entry ∈ env.entries, s.Rooted True entry.2) (word : IsWord base)
    (below : ∀ (i : Nat) e, es[i]? = some e → base + i * batchIdRange +
      (s.numbersSince (e.inferTop level env ⟨s, base⟩).supply.store).card < wordLimit)
    (done : (inferAll level env base cancelled es s).result = .ok results) :
    let final := (inferAll level env base cancelled es s).store
    (∀ entry ∈ env.entries, final.NoUnbound entry.2) ∧
    (∀ (i : Nat) result, results[i]? = some result → ∀ id ∈ result.numbers final,
      base + i * batchIdRange ≤ id ∧ id < base + (i + 1) * batchIdRange) ∧
    (∀ (i j : Nat) result other, results[i]? = some result → results[j]? = some other → i ≠ j →
      List.Disjoint (result.numbers final) (other.numbers final) ∧
      ∀ ref level, result.Touches final ref → other.Touches final ref →
        final.state ref ≠ .unbound level) ∧
    ∀ (i : Nat) (pairs : List (Ty × Ty)), (∀ pair ∈ pairs, ∀ ref level,
        final.Reaches pair.1 ref ∨ final.Reaches pair.2 ref → final.state ref = .unbound level →
        ∀ (j : Nat) other, results[j]? = some other → j ≠ i → ¬ other.Touches final ref) →
      let later := (final.unifyEach pairs).1
      (∀ (j : Nat) other, results[j]? = some other → j ≠ i → other.told later = other.told final ∧
        ∀ t ∈ other.told final, later.resolve t = final.resolve t ∧ later.shown t = final.shown t) ∧
      ∀ entry ∈ env.entries, later.resolve entry.2 = final.resolve entry.2 ∧
        later.shown entry.2 = final.shown entry.2 := by
  intro final
  let b : Batch := ⟨⟨s, base⟩, level, env⟩
  have grown : s.Grown final := inferAll_grown base cancelled es s
  obtain ⟨closed, -, run⟩ := inferAll_eq_ok done
  have whole : ∀ entry ∈ env.entries, s.Sealed True entry.2 :=
    fun entry member => (rooted entry member).sealed (closed entry member)
  have kept : ∀ entry ∈ env.entries, s.Same final entry.2 :=
    fun entry member => (whole entry member).same grown.kept
  have closed : ∀ entry ∈ env.entries, final.NoUnbound entry.2 := by
    intro entry member ref level reach free
    have before := (kept entry member).reaches reach
    have same : final.state ref = s.state ref := congrArg Cell.state (kept entry member ref before)
    exact closed entry member ref level before (same ▸ free)
  -- parts of the scope may be missing: nothing below asks for them
  have tells : b.Tells True 0 es (.ok results) final := by
    have tells : b.Tells True 0 es (inferFrom level env base 0 es s).result
        (inferFrom level env base 0 es s).store :=
      Batch.inferFrom_tells word whole (fun _ _ _ _ _ => True.intro) (.refl s) 0
    rwa [← run, done] at tells
  have copy : ∀ (i : Nat) result, results[i]? = some result → ∃ e gap typed, es[i]? = some e ∧
      b.Copy True i e gap typed result final ∧ ¬ b.Exhausts i e := by
    simpa only [Nat.zero_add] using tells.copies.2
  have range : ∀ (i : Nat) result, results[i]? = some result → ∀ id ∈ result.numbers final,
      base + i * batchIdRange ≤ id ∧ id < base + (i + 1) * batchIdRange := by
    intro i result inside id member
    obtain ⟨e, gap, typed, there, copy, fits⟩ := copy i result inside
    exact copy.mem_range fits word.1 (below i e there) member
  have disjoint : ∀ (i j : Nat) result other, results[i]? = some result →
      results[j]? = some other → i ≠ j → List.Disjoint (result.numbers final) (other.numbers final) := by
    intro i j result other inside inside' different id member member'
    have here := range i result inside id member
    have there := range j other inside' id member'
    simp only [batchIdRange] at here there
    omega
  refine ⟨closed, range, fun i j result other inside inside' different => ⟨disjoint i j result other
    inside inside' different, fun ref level touches touches' free => ?_⟩, fun i pairs apart => ?_⟩
  · obtain ⟨e, gap, typed, -, copy', -⟩ := copy i result inside
    obtain ⟨e', gap', typed', -, copy'', -⟩ := copy j other inside'
    exact disjoint i j result other inside inside' different (copy'.id_mem_numbers touches free)
      (copy''.id_mem_numbers touches' free)
  · have unmarked : final.Unmarked := grown.unmarked unmarked
    refine ⟨fun j other inside different => ?_, fun entry member => ?_⟩
    · obtain ⟨e, gap, typed, -, copy, -⟩ := copy j other inside
      exact copy.unifyEach_eq unmarked fun pair member ref level met free =>
        apart pair member ref level met free j other inside different
    · have same : final.Same (final.unifyEach pairs).1 entry.2 :=
        Store.unifyEach_same unmarked fun pair _ ref level _ free reach =>
          closed entry member ref level reach free
      have finite := ((kept entry member).throughout (whole entry member)).finite
      exact ⟨same.resolve_eq (Store.size_unifyEach unmarked pairs), same.shown_eq finite⟩

def genericScope : Bindings := ⟨[("id", .fn [.cell 0] (.cell 0))]⟩

def genericStore : Store := { cells := #[⟨3, .generic⟩] }

def twoLists : List Expr :=
  [.var {} "id" .unresolved .missing, .nil {} .missing, .nil {} .missing]

def twoListsTyped : List Expr :=
  [.var {} "id" .bound (.fn [.cell 1] (.cell 1)), .nil {} (.list (.cell 2)),
    .nil {} (.list (.cell 3))]

def twoListsStore : Store where
  cells := #[⟨3, .generic⟩, ⟨5, .unbound 1⟩, ⟨16777221, .unbound 1⟩, ⟨33554437, .unbound 1⟩]

theorem twoLists_run :
    (inferAll 1 genericScope 5 false twoLists genericStore).result = .ok twoListsTyped ∧
      (inferAll 1 genericScope 5 false twoLists genericStore).store = twoListsStore := by
  have closed : ∀ entry ∈ genericScope.entries, genericStore.NoUnbound entry.2 :=
    openNames_eq_nil_iff.mp (by decide +kernel)
  rw [inferAll_eq_inferFrom rfl closed]
  exact ⟨rfl, rfl⟩

theorem genericStore_unmarked : genericStore.Unmarked := by
  intro ref level free
  cases ref with
  | zero => cases free
  | succ ref => cases free

theorem genericScope_rooted : ∀ entry ∈ genericScope.entries, genericStore.Rooted True entry.2 := by
  rintro entry (_ | ⟨_, ⟨⟩⟩)
  refine .intro (fun leaf met => ?_) fun ref target met linked => ?_
  · have same : leaf = .cell 0 := by simpa [Ty.leaves, Ty.leavesOfList] using met
    exact same ▸ Nat.zero_lt_one
  · have same : ref = 0 := by simpa [Ty.leaves, Ty.leavesOfList] using met
    subst same
    cases linked

theorem inferAll_isolated_twoLists :
    let later := (twoListsStore.unifyEach [(.cell 2, .int)]).1
    genericStore.Unmarked ∧ (∀ entry ∈ genericScope.entries, genericStore.Rooted True entry.2) ∧
    (inferAll 1 genericScope 5 false twoLists genericStore).result = .ok twoListsTyped ∧
    (∀ (i : Nat) result, twoListsTyped[i]? = some result → ∀ id ∈ result.numbers twoListsStore,
      5 + i * batchIdRange ≤ id ∧ id < 5 + (i + 1) * batchIdRange) ∧
    later.state 2 = .linked .int ∧
    ∀ (j : Nat) other, twoListsTyped[j]? = some other → j ≠ 1 →
      other.told later = other.told twoListsStore ∧
        ∀ t ∈ other.told twoListsStore, later.shown t = twoListsStore.shown t := by
  have below : ∀ (i : Nat) e, twoLists[i]? = some e → 5 + i * batchIdRange +
      (genericStore.numbersSince
        (e.inferTop 1 genericScope ⟨genericStore, 5⟩).supply.store).card < wordLimit := by
    have few : ∀ e ∈ twoLists, (genericStore.numbersSince
        (e.inferTop 1 genericScope ⟨genericStore, 5⟩).supply.store).card ≤ 1 := by decide +kernel
    intro i e inside
    have less := (List.getElem?_eq_some_iff.mp inside).1
    have one := few e (List.mem_of_getElem? inside)
    simp only [twoLists, List.length_cons, List.length_nil, batchIdRange, wordLimit] at less ⊢
    omega
  obtain ⟨done, store⟩ := twoLists_run
  obtain ⟨-, range, apart, solving⟩ := inferAll_isolated genericStore_unmarked genericScope_rooted
    (by decide) below done
  simp only [store] at range apart solving
  have free : twoListsStore.state 2 = .unbound 1 := rfl
  have touched : (Expr.nil {} (.list (.cell 2))).Touches twoListsStore 2 := by
    refine ⟨.list (.cell 2), Expr.mem_told.mpr ⟨_, List.mem_cons_self, .inr rfl⟩, .here ?_⟩
    simp [Ty.list, Ty.leaves, Ty.leavesOfList]
  obtain ⟨kept, -⟩ := solving 1 [(.cell 2, .int)] fun pair member ref level met state j other inside
    different => by
      obtain rfl := List.mem_singleton.mp member
      have same : ref = 2 := by
        rcases met with met | met
        · exact (Store.reaches_plain (by simp [free])).mp met
        · cases met with
          | here leaf => cases leaf
          | through leaf => cases leaf
      subst same
      exact fun touches => (apart 1 j _ other rfl inside (Ne.symm different)).2 2 level touched touches
        state
  exact ⟨genericStore_unmarked, genericScope_rooted, done, range, rfl,
    fun j other inside different => ⟨(kept j other inside different).1,
      fun t told => ((kept j other inside different).2 t told).2⟩⟩

end LetPoly
