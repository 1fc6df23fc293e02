import LetPoly.Proofs.Replacing
import LetPoly.Proofs.Traversal
import LetPoly.Scheme
import LetPoly.Ty.Text

namespace LetPoly

section Agrees

variable {σ α β : Type} {I : σ → Prop}

def Agrees (I : σ → Prop) (x y : StateM σ α) : Prop := ∀ st, I st → x st = y st ∧ I (x st).2

theorem agrees_pure (a : α) : Agrees I (pure a) (pure a) := fun _ holds => ⟨rfl, holds⟩

theorem agrees_bind {x y : StateM σ α} {f g : α → StateM σ β} (first : Agrees I x y)
    (second : ∀ a, Agrees I (f a) (g a)) : Agrees I (x >>= f) (y >>= g) := by
  intro st holds
  obtain ⟨same, holds⟩ := first st holds
  change f (x st).1 (x st).2 = g (y st).1 (y st).2 ∧ I (f (x st).1 (x st).2).2
  rw [← same]
  exact second _ _ holds

theorem agrees_get {k l : σ → StateM σ α} (rest : ∀ st, I st → k st st = l st st ∧ I (k st st).2) :
    Agrees I (get >>= k) (get >>= l) := rest

theorem replaceM_agrees {f g : Leaf → StateM σ Ty} {t : Ty}
    (leaves : ∀ leaf ∈ t.leaves, Agrees I (f leaf) (g leaf)) :
    Agrees I (t.replaceM f) (t.replaceM g) :=
  replaceM_related (P := fun x y => Agrees I x y) (fun a => agrees_pure a) agrees_bind leaves

end Agrees

theorem Ty.docM_congr {f g : Nat → StateM VarNames Layout.Doc} {t : Ty}
    (same : ∀ ref, .cell ref ∈ t.leaves → f ref = g ref) : t.docM f = t.docM g := by
  have list : ∀ ts : List Ty, (∀ t ∈ ts, t.docM f = t.docM g) →
      Ty.docListM f ts = Ty.docListM g ts := by
    intro ts each
    induction ts with
    | nil => rfl
    | cons t ts ih =>
      obtain ⟨first, rest⟩ := List.forall_mem_cons.mp each
      simp only [Ty.docListM, first, ih rest]
  induction t using Ty.partsInduction with
  | leaf leaf =>
    cases leaf with
    | missing mark => rfl
    | cell ref => exact same ref List.mem_cons_self
  | node t head parts top ih =>
    have ih : ∀ part ∈ parts, part.docM f = part.docM g := fun part member =>
      ih part member fun ref met => same ref (Ty.leaves_part_subset top member met)
    cases t with
    | missing | cell => cases top
    | const | tuple | record | signature => rfl
    | app decl args =>
      cases top
      simp only [Ty.docM, list _ ih]
    | fn params result =>
      cases top
      obtain ⟨eachParam, eachResult⟩ := List.forall_mem_append.mp ih
      simp only [Ty.docM, list _ eachParam, eachResult result (by simp)]

namespace Store

variable {s s' s₁ s₂ : Store} {t : Ty} {ref : Nat} {n m m' : Nat} {level : Int} {met : Nat → Prop}

/-- A traversal spends one unit of its budget on each link, so budgets above the number of links
    that follow one another give the same. -/
theorem within_eq {α : Type} {f : Nat → Ty → α} {R : α → α → Prop}
    (step : ∀ m m' t, (∀ ref target, .cell ref ∈ t.leaves → s.state ref = .linked target →
      R (f m target) (f m' target)) → R (f (m + 1) t) (f (m' + 1) t))
    (shallow : s.Shallow n t) (enough : n < m) (enough' : n < m') : R (f m t) (f m' t) := by
  induction m generalizing n t m' with
  | zero => omega
  | succ m ih =>
    cases m' with
    | zero => omega
    | succ m' =>
      apply step
      intro ref target leaf linked
      obtain ⟨k, rfl, below⟩ := shallow.link leaf linked
      exact ih below (by omega) (by omega)

theorem headWithin_eq (shallow : s.Shallow n t) (enough : n < m) (enough' : n < m') :
    s.headWithin m t = s.headWithin m' t := by
  refine within_eq (fun m m' t below => ?_) shallow enough enough'
  cases t with
  | cell ref =>
    cases state : s.state ref with
    | linked target =>
      simp only [headWithin, state]
      exact below ref target (by simp [Ty.leaves]) state
    | unbound | generic => simp only [headWithin, state]
  | _ => rfl

theorem typeDocWithin_eq (shallow : s.Shallow n t) (enough : n < m) (enough' : n < m') :
    s.typeDocWithin m t = s.typeDocWithin m' t := by
  refine within_eq (fun m m' t below => ?_) shallow enough enough'
  apply Ty.docM_congr
  intro ref leaf
  cases state : s.state ref with
  | linked target => exact below ref target leaf state
  | unbound | generic => rfl

def SameLinks (s s' : Store) : Prop :=
  ∀ ref target, s'.state ref = .linked target ↔ s.state ref = .linked target

theorem SameLinks.name (same : s.SameLinks s') (id : Int) :
    s.SameLinks (s'.alloc id .generic).2 := by
  intro ref target
  rw [← same ref target]
  by_cases old : ref < s'.size
  · rw [(extends_alloc s' id .generic).state old]
  · have fresh : (s'.alloc id .generic).2.state ref ≠ .linked target := by
      intro linked
      have inside := lt_size_of_linked linked
      rw [size_alloc] at inside
      obtain rfl : ref = s'.size := by omega
      rw [state_alloc_self] at linked
      cases linked
    exact iff_of_false fresh fun linked => old (lt_size_of_linked linked)

theorem SameLinks.genericFor {st : Store × Renaming} (same : s.SameLinks st.1) (id : Int) :
    s.SameLinks (Store.genericFor id st).2.1 := by
  cases found : st.2.lookup id with
  | some u =>
    simp only [Store.genericFor, found]
    exact same
  | none =>
    simp only [Store.genericFor, found]
    exact same.name id

theorem generalizeWithin_agrees (shallow : s.Shallow n t) (enough : n < m) (enough' : n < m') :
    Agrees (fun st => s.SameLinks st.1) (generalizeWithin level m t)
      (generalizeWithin level m' t) := by
  refine within_eq (fun m m' t below => ?_) shallow enough enough'
  apply replaceM_agrees
  intro leaf met
  cases leaf with
  | missing mark => exact fun st same => ⟨rfl, same⟩
  | cell ref =>
    apply agrees_get
    intro st same
    cases state : st.1.state ref with
    | linked target =>
      simp only [state]
      exact below ref target met ((same ref target).mp state) st same
    | generic =>
      simp only [state, true_and]
      exact same
    | unbound own =>
      simp only [state, true_and]
      split
      · exact same.genericFor _
      · exact same

theorem eq_of_cells (size : s₁.size = s₂.size) (cells : ∀ ref, s₁.cell ref = s₂.cell ref)
    (marks : s₁.marks = s₂.marks) : s₁ = s₂ := by
  obtain ⟨cells₁, marks₁⟩ := s₁
  obtain ⟨cells₂, marks₂⟩ := s₂
  obtain rfl : marks₁ = marks₂ := marks
  congr 1
  refine Array.ext size fun i inside inside' => ?_
  have same := cells i
  simp only [cell, Array.getElem?_eq_getElem inside, Array.getElem?_eq_getElem inside'] at same
  exact same

theorem Lowers.unique (first : Lowers level met s s₁) (second : Lowers level met s s₂) :
    s₁ = s₂ := by
  refine eq_of_cells (first.size.trans second.size.symm) (fun ref => ?_)
    (first.marks.trans second.marks.symm)
  apply Cell.ext
  · rw [first.id, second.id]
  · change s₁.state ref = s₂.state ref
    by_cases seen : met ref
    · rw [first.lowered ref seen, second.lowered ref seen]
    · rw [first.kept ref seen, second.kept ref seen]

theorem ReachesIn.mono (reach : s.ReachesIn n t ref) (le : n ≤ m) : s.ReachesIn m t ref := by
  induction n generalizing t m with
  | zero => exact reach.elim
  | succ n ih =>
    obtain ⟨m, rfl⟩ : ∃ k, m = k + 1 := ⟨m - 1, by omega⟩
    rcases reach with leaf | ⟨first, target, leaf, linked, rest⟩
    · exact .inl leaf
    · exact .inr ⟨first, target, leaf, linked, ih rest (by omega)⟩

theorem reachesIn_iff (enough : s.depth ≤ n) : s.ReachesIn n t ref ↔ s.Reaches t ref :=
  ⟨ReachesIn.reaches, fun reach => (reachesIn_depth.mpr reach).mono enough⟩

def lowerAllWithin (level : Int) : Nat → Store → Ty → Except Fault Store
  | 0, s, _ => .ok s
  | budget + 1, s, t =>
    t.leaves.foldlM
      (fun s leaf =>
        match leaf with
        | .missing _ => .ok s
        | .cell ref =>
          match s.state ref with
          | .unbound _ => s.lowerLevel ref level
          | .generic => .ok s
          | .linked target => lowerAllWithin level budget s target)
      s

theorem lowerAllWithin_eq (level : Int) (n : Nat) (s : Store) (t : Ty) :
    lowerAllWithin level n s t = .ok (adjustLevelsWithin level n s t) := by
  induction n generalizing s t with
  | zero => rfl
  | succ n ih =>
    rw [adjustLevelsWithin_succ]
    refine Eq.trans ?_ List.foldlM_pure
    unfold lowerAllWithin
    congr 1
    funext s leaf
    cases leaf with
    | missing mark => rfl
    | cell ref =>
      cases state : s.state ref with
      | unbound own => simp only [lowerLevel, lowerLeaf, state]; rfl
      | generic => simp only [lowerLeaf, state]; rfl
      | linked target => simp only [lowerLeaf, state, ih]; rfl

/-- All that is done by going through a type comes to an end: the links it follows do, and no answer
    depends on the budget. On the way, no variable refuses to have its level lowered. -/
structure Terminates (s : Store) (t : Ty) : Prop where
  finite : s.Finite t
  head : ∀ n, s.depth ≤ n → s.headWithin n t = s.head t
  headEnds : ∀ ref target, s.head t = .cell ref → s.state ref ≠ .linked target
  occurs : ∀ id n, s.depth ≤ n → s.occursWithin id n t = s.occurs id t
  adjustLevels : ∀ level n, level ≠ genericLevel ∧ level ≠ linkLevel → s.depth ≤ n →
    lowerAllWithin level n s t = .ok (s.adjustLevels level t)
  generalize : ∀ level n, s.depth ≤ n →
    generalizeWithin level n t (s, []) = generalizeWithin level s.depth t (s, [])
  typeDoc : ∀ n, s.depth ≤ n → s.typeDocWithin n t = s.typeDoc t

theorem Finite.terminates (finite : s.Finite t) : s.Terminates t := by
  have depth : s.size < s.depth := Nat.lt_succ_self s.size
  have shallow := finite.shallow
  refine ⟨finite, fun n enough => ?_, fun ref target => head_unlinked finite, fun id n enough => ?_,
    fun level n unmarked enough => ?_, fun level n enough => ?_, fun n enough => ?_⟩
  · exact headWithin_eq shallow (Nat.lt_of_lt_of_le depth enough) depth
  · rw [Bool.eq_iff_iff, occursWithin_iff, occurs_iff]
    simp only [reachesIn_iff enough]
  · rw [lowerAllWithin_eq]
    have lowers := adjustLevelsWithin_lowers unmarked n s t
    rw [(lowers.congr fun _ => reachesIn_iff enough).unique (adjustLevels_lowers unmarked s t)]
  · exact (generalizeWithin_agrees shallow (Nat.lt_of_lt_of_le depth enough) depth (s, [])
      fun _ _ => Iff.rfl).1
  · exact typeDocWithin_eq shallow (Nat.lt_of_lt_of_le depth enough) depth

end Store

end LetPoly
