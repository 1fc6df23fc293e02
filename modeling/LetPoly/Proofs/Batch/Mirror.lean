import LetPoly.Proofs.Batch.Lockstep
import LetPoly.Proofs.Shown

namespace LetPoly

def Leaf.plain : Leaf → Leaf
  | .missing _ => .missing 0
  | .cell ref => .cell ref

def Ty.plain (t : Ty) : Ty := t.rename Leaf.plain

theorem anyM_map {α β : Type} (f : β → Except Fault Bool) (g : α → β) (xs : List α) :
    (xs.map g).anyM f = xs.anyM fun x => f (g x) := by
  induction xs with
  | nil => rfl
  | cons x xs ih => simp only [List.map_cons, List.anyM, ih]

theorem anyM_congr {α : Type} {f g : α → Except Fault Bool} {xs : List α}
    (same : ∀ x ∈ xs, f x = g x) : xs.anyM f = xs.anyM g := by
  induction xs with
  | nil => rfl
  | cons x xs ih =>
    obtain ⟨first, rest⟩ := List.forall_mem_cons.mp same
    simp only [List.anyM, first, ih rest]

theorem anyM_eq_error {α : Type} {f : α → Except Fault Bool} {xs : List α} {e : Fault}
    (fails : xs.anyM f = .error e) : ∃ x ∈ xs, f x = .error e := by
  induction xs with
  | nil => cases fails
  | cons x xs ih =>
    simp only [List.anyM] at fails
    cases first : f x with
    | error e' =>
      rw [first] at fails
      cases fails
      exact ⟨x, List.mem_cons_self, first⟩
    | ok b =>
      rw [first] at fails
      cases b with
      | true => cases fails
      | false =>
        obtain ⟨y, member, fails⟩ := ih fails
        exact ⟨y, List.mem_cons_of_mem _ member, fails⟩

theorem anyM_eq_false {α : Type} {f : α → Except Fault Bool} {xs : List α}
    (none : xs.anyM f = .ok false) : ∀ x ∈ xs, f x = .ok false := by
  induction xs with
  | nil => simp
  | cons x xs ih =>
    simp only [List.anyM] at none
    cases first : f x with
    | error e =>
      rw [first] at none
      cases none
    | ok b =>
      rw [first] at none
      cases b with
      | true => cases none
      | false => exact List.forall_mem_cons.mpr ⟨first, ih none⟩

namespace Store

variable {s s' : Store} {t target : Ty} {ref : Nat} {loose : Prop}

def SettledLeaf (s : Store) (loose : Prop) : Leaf → Prop
  | .missing _ => loose
  | .cell ref => ∃ target, s.state ref = .linked target

def Settled (s : Store) (loose : Prop) (t : Ty) : Prop :=
  s.Throughout (fun u => ∀ leaf ∈ u.leaves, s.SettledLeaf loose leaf) t

def SealedLeaf (s : Store) (loose : Prop) : Leaf → Prop
  | .missing _ => loose
  | .cell ref => ref < s.size ∧ ∀ level, s.state ref ≠ .unbound level

def Sealed (s : Store) (loose : Prop) (t : Ty) : Prop :=
  s.Throughout (fun u => ∀ leaf ∈ u.leaves, s.SealedLeaf loose leaf) t

theorem head_linked (finite : s.Finite (.cell ref)) (linked : s.state ref = .linked target) :
    s.head (.cell ref) = s.head target := by
  obtain ⟨n, count, below⟩ := finite.shallow.link Ty.cell_mem_leaves linked
  calc s.head (.cell ref)
    _ = s.headWithin s.size target := by simp only [head, depth, headWithin, linked]
    _ = s.head target := headWithin_eq below (by omega) (by rw [depth]; omega)

theorem Throughout.leaf {P : Leaf → Prop} {leaf : Leaf}
    (all : s.Throughout (fun u => ∀ leaf ∈ u.leaves, P leaf) t) (met : leaf ∈ t.leaves) :
    s.Throughout (fun u => ∀ leaf ∈ u.leaves, P leaf) leaf.toTy := by
  have single : leaf.toTy.leaves = [leaf] := Ty.leaves_toTy leaf
  refine .intro (fun other met' => ?_) fun ref target met' linked => ?_
  · rw [single, List.mem_singleton] at met'
    exact met' ▸ all.holds leaf met
  · rw [single, List.mem_singleton] at met'
    subst met'
    exact all.link met linked

theorem Throughout.reaches {P : Leaf → Prop}
    (all : s.Throughout (fun u => ∀ leaf ∈ u.leaves, P leaf) t) (reach : s.Reaches t ref) :
    P (.cell ref) := by
  induction reach with
  | here leaf => exact all.holds _ leaf
  | through leaf linked _ ih => exact ih (all.link leaf linked)

theorem Settled.same (settled : s.Settled loose t) (ext : s.Extends s') : s.Same s' t := by
  intro ref reach
  obtain ⟨target, linked⟩ := settled.reaches reach
  exact ext.cell ref (lt_size_of_linked linked)

theorem Sealed.same (closed : s.Sealed loose t) (ext : s.Extends s') : s.Same s' t :=
  fun ref reach => ext.cell ref (closed.reaches reach).1

def genericLeaf (s : Store) (budget : Nat) : Leaf → Except Fault Bool
  | .missing _ => .error .missingType
  | .cell ref =>
    match s.state ref with
    | .unbound _ => .ok false
    | .generic => .ok true
    | .linked target => s.isGenericWithin budget target

theorem isGenericWithin_succ (s : Store) (n : Nat) (t : Ty) :
    s.isGenericWithin (n + 1) t = t.leaves.anyM (s.genericLeaf n) := rfl

theorem throughout_of_isGenericWithin {n k : Nat} (shallow : s.Shallow n t) (enough : n < k)
    (none : s.isGenericWithin k t = .ok false) :
    s.Throughout (fun u => ∀ leaf ∈ u.leaves, ∀ ref, leaf = .cell ref → s.state ref ≠ .generic) t := by
  induction k generalizing n t with
  | zero => omega
  | succ k ih =>
    rw [isGenericWithin_succ] at none
    have each := anyM_eq_false none
    refine .intro (fun leaf met ref same generic => ?_) fun ref target met linked => ?_
    · have none := each leaf met
      simp only [same, genericLeaf, generic] at none
      cases none
    · obtain ⟨j, count, inner⟩ := shallow.link met linked
      have none := each _ met
      simp only [genericLeaf, linked] at none
      exact ih inner (by omega) none

theorem Sealed.settled (closed : s.Sealed loose t) (ext : s.Extends s')
    (none : s'.isGeneric t = .ok false) : s.Settled loose t := by
  have finite : s'.Finite t := ((closed.same ext).throughout closed).finite
  have ungeneric := throughout_of_isGenericWithin finite.shallow (Nat.lt_succ_self _) none
  clear none finite
  induction closed with
  | intro here below ih =>
    refine .intro (fun leaf met => ?_) fun ref target met linked => ?_
    · cases leaf with
      | missing mark => exact here _ met
      | cell ref =>
        obtain ⟨inside, bound⟩ := here _ met
        have named := ungeneric.holds _ met ref rfl
        rw [ext.state inside] at named
        -- neither unbound nor generic, so it is a link
        cases state : s.state ref with
        | unbound level => exact absurd state (bound level)
        | generic => exact absurd state named
        | linked target => exact ⟨target, state⟩
    · have linked' : s'.state ref = .linked target := by
        rw [ext.state (here _ met).1, linked]
      exact ih ref target met linked (ungeneric.link met linked')

theorem Settled.cell (settled : s.Settled loose target) (linked : s.state ref = .linked target) :
    s.Settled loose (.cell ref) := by
  refine .intro (fun leaf met => ?_) fun other aim met linked' => ?_
  · rw [List.mem_singleton.mp met]
    exact ⟨target, linked⟩
  · simp only [Ty.leaves, List.mem_singleton, Leaf.cell.injEq] at met
    rw [met, linked] at linked'
    cases linked'
    exact settled

theorem head_of_ne_cell (other : ∀ ref, t ≠ .cell ref) : s.head t = t := by
  cases t with
  | cell ref => exact absurd rfl (other ref)
  | _ => rfl

theorem head_plain (plain : ∀ target, s.state ref ≠ .linked target) :
    s.head (.cell ref) = .cell ref := by
  cases state : s.state ref with
  | linked target => exact absurd state (plain target)
  | unbound | generic => simp only [head, depth, headWithin, state]

end Store

/-- Two runs that go on from one supply. The first does so at once, the second behind cells that
    others have made meanwhile and with other numbers for its variables. -/
structure Mirror where
  start : Supply
  gap : Nat
  number : Int → Int
  loose : Prop
  injective : Function.Injective number
  next : ∀ n, IsWord n → number (wrap64 (n + 1)) = wrap64 (number n + 1)

namespace Mirror

variable {m : Mirror} {s s' : Store} {t t' u target : Ty} {ref N N' : Nat}

def size (m : Mirror) : Nat := m.start.store.size

def place (m : Mirror) (ref : Nat) : Nat := if ref < m.size then ref else ref + m.gap

def leaf (m : Mirror) : Leaf → Leaf
  | .missing _ => .missing 0
  | .cell ref => .cell (m.place ref)

def Mates (m : Mirror) (t t' : Ty) : Prop := t'.plain = t.rename m.leaf

theorem place_old (old : ref < m.size) : m.place ref = ref := if_pos old

theorem place_new (new : m.size ≤ ref) : m.place ref = ref + m.gap := if_neg (Nat.not_lt.mpr new)

theorem mates_missing (mark mark' : Nat) : m.Mates (.missing mark) (.missing mark') := rfl

theorem mates_cell_iff : m.Mates (.cell ref) t' ↔ t' = .cell (m.place ref) := by
  constructor
  · intro mates
    cases t' with
    | missing => cases mates
    | cell other => exact mates
    | const | app | tuple | fn | record | signature => cases mates
  · rintro rfl
    rfl

theorem mates_self (old : ∀ ref, .cell ref ∈ t.leaves → ref < m.size) : m.Mates t t := by
  refine Ty.rename_congr fun leaf met => ?_
  cases leaf with
  | missing mark => rfl
  | cell ref => rw [leaf, place_old (old ref met), Leaf.plain]

theorem mates_node {head : Head} {parts parts' : List Ty} (top : t.node? = some (head, parts))
    (top' : t'.node? = some (head, parts')) (mates : List.Forall₂ m.Mates parts parts') :
    m.Mates t t' := by
  refine Ty.rename_node top' top ?_
  clear top top'
  induction mates with
  | nil => rfl
  | cons first _ ih => rw [List.map_cons, List.map_cons, ih, ← first, Ty.plain]

theorem Mates.leaves (mates : m.Mates t t') : t'.leaves.map Leaf.plain = t.leaves.map m.leaf := by
  rw [← Ty.leaves_rename, ← Ty.leaves_rename]
  exact congrArg Ty.leaves mates

theorem Mates.mem_cell {ref' : Nat} (mates : m.Mates t t') :
    .cell ref' ∈ t'.leaves ↔ ∃ ref, .cell ref ∈ t.leaves ∧ m.place ref = ref' := by
  have plain : .cell ref' ∈ t'.leaves.map Leaf.plain ↔ .cell ref' ∈ t'.leaves := by
    rw [List.mem_map]
    constructor
    · rintro ⟨leaf, met, same⟩
      cases leaf with
      | missing mark => cases same
      | cell other => exact same ▸ met
    · exact fun met => ⟨_, met, rfl⟩
  rw [← plain, mates.leaves, List.mem_map]
  constructor
  · rintro ⟨leaf, met, same⟩
    cases leaf with
    | missing mark => cases same
    | cell ref => exact ⟨ref, met, Leaf.cell.inj same⟩
  · rintro ⟨ref, met, rfl⟩
    exact ⟨_, met, rfl⟩

theorem Mates.replaceM {M : Type → Type} [Monad M] {f : Leaf → M Ty} (mates : m.Mates t t')
    (unmarked : ∀ leaf, f leaf.plain = f leaf) :
    t'.replaceM f = t.replaceM fun leaf => f (m.leaf leaf) := by
  calc t'.replaceM f
    _ = t'.replaceM fun leaf => f leaf.plain := by simp only [unmarked]
    _ = t'.plain.replaceM f := (Ty.replaceM_rename Leaf.plain f t').symm
    _ = (t.rename m.leaf).replaceM f := congrArg (Ty.replaceM f) mates
    _ = t.replaceM fun leaf => f (m.leaf leaf) := Ty.replaceM_rename m.leaf f t

theorem Mates.bind_tree {α : Type} {f : Leaf → Term α} (mates : m.Mates t t')
    (unmarked : ∀ leaf, f leaf.plain = f leaf) :
    t'.tree.bind f = t.tree.bind fun leaf => f (m.leaf leaf) := by
  have map_bind : ∀ (g : Leaf → Leaf) (u : Ty), (u.rename g).tree.bind f =
      u.tree.bind fun leaf => f (g leaf) := by
    intro g u
    rw [Ty.tree_rename, Term.map, Term.bind_bind]
    simp only [Term.bind_atom]
  calc t'.tree.bind f
    _ = t'.tree.bind fun leaf => f leaf.plain := by simp only [unmarked]
    _ = t'.plain.tree.bind f := (map_bind Leaf.plain t').symm
    _ = (t.rename m.leaf).tree.bind f := congrArg (fun u => (Ty.tree u).bind f) mates
    _ = t.tree.bind fun leaf => f (m.leaf leaf) := map_bind m.leaf t

theorem Mates.shown_of_leaves {g : Shown → Shown} (mates : m.Mates t t')
    (leaves : ∀ leaf ∈ t.leaves, s'.shown (m.leaf leaf).toTy = (s.shown leaf.toTy).map g) :
    s'.shown t' = (s.shown t).map g := by
  rw [Store.shown_eq_bind, Store.shown_eq_bind, Term.map_bind, mates.bind_tree]
  · apply Term.bind_congr
    rw [← Ty.leaves_eq_atoms]
    exact leaves
  · intro leaf
    cases leaf with
    | missing mark => rw [Leaf.plain, Leaf.toTy, Leaf.toTy, Store.shown_missing, Store.shown_missing]
    | cell ref => rfl

/-- A leaf of a type that the first run made: a cell of its own, or one from the start in which there
    is no variable. -/
def OwnLeaf (m : Mirror) (N : Nat) : Leaf → Prop
  | .missing _ => m.loose
  | .cell ref => (m.size ≤ ref ∧ ref < N) ∨ m.start.store.Settled m.loose (.cell ref)

structure Own (m : Mirror) (N : Nat) (t t' : Ty) : Prop where
  mates : m.Mates t t'
  own : ∀ leaf ∈ t.leaves, m.OwnLeaf N leaf

theorem OwnLeaf.mono {leaf : Leaf} (le : N ≤ N') (own : m.OwnLeaf N leaf) : m.OwnLeaf N' leaf := by
  cases leaf with
  | missing mark => exact own
  | cell ref => exact own.imp_left fun new => ⟨new.1, Nat.lt_of_lt_of_le new.2 le⟩

theorem Own.mono (le : N ≤ N') (own : m.Own N t t') : m.Own N' t t' :=
  ⟨own.mates, fun leaf met => (own.own leaf met).mono le⟩

theorem Own.node {head : Head} {parts parts' : List Ty} (top : t.node? = some (head, parts))
    (top' : t'.node? = some (head, parts')) (own : List.Forall₂ (m.Own N) parts parts') :
    m.Own N t t' := by
  have split : (∀ part ∈ parts, ∀ leaf ∈ part.leaves, m.OwnLeaf N leaf) ∧
      List.Forall₂ m.Mates parts parts' :=
    (List.forall₂_and_left _ _).mp (own.imp fun _ _ both => ⟨both.own, both.mates⟩)
  refine ⟨mates_node top top' split.2, fun leaf met => ?_⟩
  rw [Ty.leaves_of_node top] at met
  obtain ⟨part, member, met⟩ := List.mem_flatMap.mp met
  exact split.1 part member leaf met

/-- The first store has grown from the start, and the second has what is new in it elsewhere. -/
structure Lies (m : Mirror) (s s' : Store) : Prop where
  grown : m.start.store.Extends s
  made : ∀ ref, m.size ≤ ref → ref < s.size →
    ∃ level, (level = linkLevel → m.loose) ∧ s.state ref = .ofLevel level
  old : ∀ ref, ref < m.size → s'.cell ref = m.start.store.cell ref
  new : ∀ ref, m.size ≤ ref → ref < s.size →
    s'.cell (ref + m.gap) = ⟨m.number (s.cell ref).id, s.state ref⟩
  inside : s.size + m.gap ≤ s'.size

theorem Lies.extend {s'' : Store} (lies : m.Lies s s') (ext : s'.Extends s'') : m.Lies s s'' where
  grown := lies.grown
  made := lies.made
  old ref old := by
    have inside : ref < s'.size := by
      have le := lies.grown.size
      have le' := lies.inside
      simp only [size] at old
      omega
    rw [ext.cell ref inside, lies.old ref old]
  new ref new inside := by
    have le := lies.inside
    rw [ext.cell _ (by omega), lies.new ref new inside]
  inside := Nat.le_trans lies.inside ext.size

theorem Lies.alloc (lies : m.Lies s s') (sizes : s'.size = s.size + m.gap) (id level : Int)
    (marked : level = linkLevel → m.loose) :
    m.Lies (s.alloc id (.ofLevel level)).2 (s'.alloc (m.number id) (.ofLevel level)).2 := by
  have le : m.size ≤ s.size := lies.grown.size
  refine ⟨lies.grown.trans (Store.extends_alloc _ _ _), fun ref new inside => ?_, fun ref old => ?_,
    fun ref new inside => ?_, ?_⟩
  · rw [Store.size_alloc] at inside
    by_cases last : ref = s.size
    · subst last
      exact ⟨level, marked, Store.state_alloc_self _ _ _⟩
    · obtain ⟨level, marked, state⟩ := lies.made ref new (by omega)
      refine ⟨level, marked, ?_⟩
      rw [(Store.extends_alloc s id _).state (by omega), state]
  · rw [Store.cell_alloc _ _ _ (by omega), lies.old ref old]
  · rw [Store.size_alloc] at inside
    by_cases last : ref = s.size
    · subst last
      rw [← sizes, Store.cell_alloc_self, Store.state_alloc_self, Store.cell_alloc_self]
    · rw [Store.cell_alloc _ _ _ (by omega), lies.new ref new (by omega),
        Store.cell_alloc _ _ _ (by omega), (Store.extends_alloc s id _).state (by omega)]
  · rw [Store.size_alloc, Store.size_alloc]
    omega

structure Facing (m : Mirror) (s s' : Store) (κ : Int → Int) (good : Leaf → Prop) : Prop where
  room : s.size ≤ s'.size
  finite : ∀ ref, good (.cell ref) → s.Finite (.cell ref)
  missing : ∀ mark, good (.missing mark) → m.loose
  linked : ∀ ref target, good (.cell ref) → s.state ref = .linked target →
    s'.state (m.place ref) = .linked target ∧ m.Mates target target ∧
      ∀ leaf ∈ target.leaves, good leaf
  plain : ∀ ref, good (.cell ref) → (∀ target, s.state ref ≠ .linked target) →
    s'.cell (m.place ref) = ⟨κ (s.cell ref).id, s.state ref⟩

namespace Facing

variable {κ : Int → Int} {good : Leaf → Prop}

theorem state_plain (facing : m.Facing s s' κ good) (here : good (.cell ref))
    (plain : ∀ target, s.state ref ≠ .linked target) : s'.state (m.place ref) = s.state ref := by
  rw [Store.state, facing.plain ref here plain]

theorem finite_of_leaves (facing : m.Facing s s' κ good) (all : ∀ leaf ∈ t.leaves, good leaf) :
    s.Finite t := by
  refine .intro True.intro fun ref target met linked => ?_
  exact (facing.finite ref (all _ met)).link linked

theorem induction (facing : m.Facing s s' κ good) {motive : Leaf → Prop}
    (missing : ∀ mark, good (.missing mark) → motive (.missing mark))
    (plain : ∀ ref, good (.cell ref) → (∀ target, s.state ref ≠ .linked target) →
      motive (.cell ref))
    (linked : ∀ ref target, good (.cell ref) → s.state ref = .linked target →
      (∀ leaf ∈ target.leaves, motive leaf) → motive (.cell ref))
    (leaf : Leaf) (here : good leaf) : motive leaf := by
  have all : ∀ t, s.Finite t → (∀ leaf ∈ t.leaves, good leaf) → ∀ leaf ∈ t.leaves, motive leaf := by
    intro t finite
    induction finite with
    | @intro t _ below ih =>
      intro good leaf met
      cases leaf with
      | missing mark => exact missing mark (good _ met)
      | cell ref =>
        cases state : s.state ref with
        | unbound level => exact plain ref (good _ met) (by simp [state])
        | generic => exact plain ref (good _ met) (by simp [state])
        | linked target =>
          refine linked ref target (good _ met) state (ih ref target met state ?_)
          exact (facing.linked ref target (good _ met) state).2.2
  have single : ∀ other ∈ leaf.toTy.leaves, good other := by simpa using here
  exact all leaf.toTy (facing.finite_of_leaves single) single leaf (by simp)

theorem finite_mate (facing : m.Facing s s' κ good) (all : ∀ leaf ∈ t.leaves, good leaf)
    (mates : m.Mates t t') : s'.Finite t' := by
  -- the links of the second type are those of the first, so they end where those end
  have cells : ∀ leaf, good leaf → ∀ ref, leaf = .cell ref → s'.Finite (.cell (m.place ref)) := by
    refine facing.induction (fun _ _ _ same => by cases same) ?_ ?_
    · rintro ref here plain _ ⟨⟩
      refine .intro True.intro fun other target met linked => ?_
      simp only [Ty.leaves, List.mem_singleton, Leaf.cell.injEq] at met
      rw [met, facing.state_plain here plain] at linked
      exact absurd linked (plain target)
    · rintro ref target here linked ih _ ⟨⟩
      obtain ⟨linked', mates, -⟩ := facing.linked ref target here linked
      refine .intro True.intro fun other target' met linked'' => ?_
      simp only [Ty.leaves, List.mem_singleton, Leaf.cell.injEq] at met
      rw [met, linked'] at linked''
      cases linked''
      refine .intro True.intro fun next aim met' link => ?_
      obtain ⟨inner, met, rfl⟩ := mates.mem_cell.mp met'
      exact (ih _ met inner rfl).link link
  refine .intro True.intro fun ref' target met' linked => ?_
  obtain ⟨ref, met, rfl⟩ := mates.mem_cell.mp met'
  exact (cells _ (all _ met) ref rfl).link linked

theorem shown_eq (facing : m.Facing s s' κ good) (all : ∀ leaf ∈ t.leaves, good leaf)
    (mates : m.Mates t t') : s'.shown t' = (s.shown t).map (Shown.renumber κ) := by
  have leaf : ∀ leaf, good leaf →
      s'.shown (m.leaf leaf).toTy = (s.shown leaf.toTy).map (Shown.renumber κ) := by
    refine facing.induction ?_ ?_ ?_
    · intro mark _
      simp only [leaf, Leaf.toTy, Store.shown_missing, Term.map_atom, Shown.renumber]
    · intro ref here plain
      have state := facing.state_plain here plain
      have id : (s'.cell (m.place ref)).id = κ (s.cell ref).id := by
        rw [facing.plain ref here plain]
      cases own : s.state ref with
      | linked target => exact absurd own (plain target)
      | unbound level =>
        simp only [leaf, Leaf.toTy, Store.shown_unbound own, Store.shown_unbound (state.trans own),
          id, Term.map_atom, Shown.renumber]
      | generic =>
        simp only [leaf, Leaf.toTy, Store.shown_generic own, Store.shown_generic (state.trans own),
          id, Term.map_atom, Shown.renumber]
    · intro ref target here linked ih
      obtain ⟨linked', mates, -⟩ := facing.linked ref target here linked
      have finite' : s'.Finite (.cell (m.place ref)) :=
        facing.finite_mate (by simpa [Ty.leaves] using here) (mates_cell_iff.mpr rfl)
      simp only [leaf, Leaf.toTy, Store.shown_linked (facing.finite ref here) linked,
        Store.shown_linked finite' linked']
      exact mates.shown_of_leaves ih
  exact mates.shown_of_leaves fun l met => leaf l (all l met)

theorem head_eq (facing : m.Facing s s' κ good) (all : ∀ leaf ∈ t.leaves, good leaf)
    (mates : m.Mates t t') :
    m.Mates (s.head t) (s'.head t') ∧ ∀ leaf ∈ (s.head t).leaves, good leaf := by
  -- only a cell has a head other than itself
  have step : ∀ {t t'}, m.Mates t t' → (∀ leaf ∈ t.leaves, good leaf) →
      (∀ ref, t = .cell ref → m.Mates (s.head (.cell ref)) (s'.head (.cell (m.place ref))) ∧
        ∀ leaf ∈ (s.head (.cell ref)).leaves, good leaf) →
      m.Mates (s.head t) (s'.head t') ∧ ∀ leaf ∈ (s.head t).leaves, good leaf := by
    intro t t' mates all cells
    cases t with
    | cell ref =>
      rw [mates_cell_iff.mp mates]
      exact cells ref rfl
    | _ =>
      have same : s'.head t' = t' := Store.head_of_ne_cell fun ref' cell => by
        rw [cell] at mates
        cases mates
      rw [same]
      exact ⟨mates, all⟩
  have leaf : ∀ leaf, good leaf → ∀ ref, leaf = .cell ref →
      m.Mates (s.head (.cell ref)) (s'.head (.cell (m.place ref))) ∧
        ∀ leaf ∈ (s.head (.cell ref)).leaves, good leaf := by
    refine facing.induction (fun _ _ _ same => by cases same) ?_ ?_
    · rintro ref here plain _ ⟨⟩
      have plain' : ∀ target, s'.state (m.place ref) ≠ .linked target := by
        rw [facing.state_plain here plain]
        exact plain
      rw [Store.head_plain plain, Store.head_plain plain']
      exact ⟨mates_cell_iff.mpr rfl, by simpa [Ty.leaves] using here⟩
    · rintro ref target here linked ih _ ⟨⟩
      obtain ⟨linked', mates, below⟩ := facing.linked ref target here linked
      have finite' : s'.Finite (.cell (m.place ref)) :=
        facing.finite_mate (by simpa [Ty.leaves] using here) (mates_cell_iff.mpr rfl)
      rw [Store.head_linked (facing.finite ref here) linked, Store.head_linked finite' linked']
      refine step mates below ?_
      rintro ref rfl
      exact ih (.cell ref) (by simp [Ty.leaves]) ref rfl
  refine step mates all ?_
  rintro ref rfl
  exact leaf (.cell ref) (all _ (by simp [Ty.leaves])) ref rfl

theorem isGenericWithin_eq (facing : m.Facing s s' κ good) {n k k' : Nat} (shallow : s.Shallow n t)
    (enough : n < k) (enough' : n < k') (all : ∀ leaf ∈ t.leaves, good leaf)
    (mates : m.Mates t t') : s'.isGenericWithin k' t' = s.isGenericWithin k t := by
  induction k generalizing n k' t t' with
  | zero => omega
  | succ k ih =>
    -- the budgets differ with the sizes of the stores, but both are above the links there are
    obtain ⟨k', rfl⟩ : ∃ j, k' = j + 1 := ⟨k' - 1, by omega⟩
    rw [Store.isGenericWithin_succ, Store.isGenericWithin_succ]
    calc t'.leaves.anyM (s'.genericLeaf k')
      _ = t'.leaves.anyM fun leaf => s'.genericLeaf k' leaf.plain := by
        congr 1
        funext leaf
        cases leaf <;> rfl
      _ = (t'.leaves.map Leaf.plain).anyM (s'.genericLeaf k') := (anyM_map _ _ _).symm
      _ = (t.leaves.map m.leaf).anyM (s'.genericLeaf k') := by rw [mates.leaves]
      _ = t.leaves.anyM fun leaf => s'.genericLeaf k' (m.leaf leaf) := anyM_map _ _ _
      _ = t.leaves.anyM (s.genericLeaf k) := anyM_congr fun leaf met => ?_
    cases leaf with
    | missing mark => rfl
    | cell ref =>
      have here := all _ met
      cases state : s.state ref with
      | linked target =>
        obtain ⟨linked', mates, below⟩ := facing.linked ref target here state
        obtain ⟨j, count, inner⟩ := shallow.link met state
        simp only [Store.genericLeaf, leaf, state, linked']
        refine ih inner ?_ ?_ below mates <;> omega
      | unbound | generic =>
        have plain : ∀ target, s.state ref ≠ .linked target := by simp [state]
        simp only [Store.genericLeaf, leaf, facing.state_plain here plain, state]

theorem isGenericWithin_error (facing : m.Facing s s' κ good) {k : Nat} {e : Fault}
    (all : ∀ leaf ∈ t.leaves, good leaf) (fails : s.isGenericWithin k t = .error e) : m.loose := by
  induction k generalizing t with
  | zero => cases fails
  | succ k ih =>
    rw [Store.isGenericWithin_succ] at fails
    obtain ⟨leaf, met, fails⟩ := anyM_eq_error fails
    cases leaf with
    | missing mark => exact facing.missing mark (all _ met)
    | cell ref =>
      cases state : s.state ref with
      | linked target =>
        simp only [Store.genericLeaf, state] at fails
        exact ih (facing.linked ref target (all _ met) state).2.2 fails
      | unbound | generic =>
        simp only [Store.genericLeaf, state] at fails
        cases fails

theorem isGeneric_eq (facing : m.Facing s s' κ good) (all : ∀ leaf ∈ t.leaves, good leaf)
    (mates : m.Mates t t') : s'.isGeneric t' = s.isGeneric t := by
  have room := facing.room
  refine facing.isGenericWithin_eq (facing.finite_of_leaves all).shallow ?_ ?_ all mates
  all_goals
    rw [Store.depth]
    omega

end Facing

theorem Lies.own_facing (lies : m.Lies s s') (le : N ≤ s.size) :
    m.Facing s s' m.number (m.OwnLeaf N) := by
  have room := lies.inside
  refine ⟨by omega, fun ref own => ?_, fun mark own => own, fun ref target own linked => ?_,
    fun ref own plain => ?_⟩
  · rcases own with ⟨new, inside⟩ | settled
    · obtain ⟨level, -, state⟩ := lies.made ref new (by omega)
      refine .intro True.intro fun other target met linked => ?_
      simp only [Ty.leaves, List.mem_singleton, Leaf.cell.injEq] at met
      rw [met, state] at linked
      -- a new cell is a link only by the mark of a level, and then nothing is behind it
      rw [(VarState.ofLevel_eq_linked linked).2]
      refine .intro True.intro fun next aim met' => ?_
      simp [Ty.leaves] at met'
    · exact ((settled.same lies.grown).throughout settled).finite
  · rcases own with ⟨new, inside⟩ | settled
    · obtain ⟨level, marked, state⟩ := lies.made ref new (by omega)
      obtain ⟨same, rfl⟩ := VarState.ofLevel_eq_linked (state ▸ linked)
      refine ⟨?_, mates_missing 0 0, ?_⟩
      · rw [place_new new, Store.state, lies.new ref new (by omega)]
        exact linked
      · intro leaf met
        rw [List.mem_singleton.mp met]
        exact marked same
    · have same := settled.same lies.grown
      have linked : m.start.store.state ref = .linked target := by
        rw [← same.state Ty.cell_mem_leaves, linked]
      have old : ref < m.size := Store.lt_size_of_linked linked
      have below : m.start.store.Settled m.loose target := settled.link Ty.cell_mem_leaves linked
      refine ⟨?_, mates_self fun other met => ?_, fun leaf met => ?_⟩
      · rw [place_old old, Store.state, lies.old ref old]
        exact linked
      · obtain ⟨aim, linked⟩ := below.holds _ met
        exact Store.lt_size_of_linked linked
      · cases leaf with
        | missing mark => exact below.holds _ met
        | cell other => exact .inr (below.leaf met)
  · rcases own with ⟨new, inside⟩ | settled
    · rw [place_new new, lies.new ref new (by omega)]
    · obtain ⟨target, linked⟩ := settled.holds _ Ty.cell_mem_leaves
      exact absurd ((settled.same lies.grown).state Ty.cell_mem_leaves ▸ linked) (plain target)

theorem Lies.sealed_facing (lies : m.Lies s s') :
    m.Facing s s' id fun leaf => m.start.store.Sealed m.loose leaf.toTy := by
  have room := lies.inside
  refine ⟨by omega, fun ref closed => ?_, fun mark closed => ?_, fun ref target closed linked => ?_,
    fun ref closed plain => ?_⟩
  · exact ((closed.same lies.grown).throughout closed).finite
  · exact closed.holds (.missing mark) List.mem_cons_self
  · have old : ref < m.size := (closed.holds _ Ty.cell_mem_leaves).1
    have linked : m.start.store.state ref = .linked target := by
      rw [← (closed.same lies.grown).state Ty.cell_mem_leaves, linked]
    have below : m.start.store.Sealed m.loose target := closed.link Ty.cell_mem_leaves linked
    refine ⟨?_, mates_self fun other met => (below.holds _ met).1, fun leaf met => below.leaf met⟩
    rw [place_old old, Store.state, lies.old ref old]
    exact linked
  · have old : ref < m.size := (closed.holds _ Ty.cell_mem_leaves).1
    rw [place_old old, lies.old ref old, Store.state, lies.grown.cell ref old]
    rfl

end Mirror

end LetPoly
