import LetPoly.Proofs.Budget

namespace LetPoly

/-- What is seen of the end of a type from outside: a variable is known by its number. -/
inductive Shown
  | missing
  | unbound (id level : Int)
  | generic (id : Int)
deriving DecidableEq, Repr

namespace Shown

def id? : Shown → Option Int
  | .missing => none
  | .unbound id _ => some id
  | .generic id => some id

def renumber (f : Int → Int) : Shown → Shown
  | .missing => .missing
  | .unbound id level => .unbound (f id) level
  | .generic id => .generic (f id)

theorem id?_renumber (f : Int → Int) (a : Shown) : (a.renumber f).id? = a.id?.map f := by
  cases a <;> rfl

end Shown

namespace Store

variable {s s' : Store} {t target : Ty} {ref : Nat} {n : Nat} {level : Int} {P : Ty → Prop}

def shownAtom (s : Store) : Atom → Shown
  | .missing => .missing
  | .rigid id => .generic id
  | .var ref =>
    match s.state ref with
    | .unbound level => .unbound (s.cell ref).id level
    | _ => .missing

def shown (s : Store) (t : Ty) : Term Shown := (s.view t).map s.shownAtom

theorem shown_eq_bind (s : Store) (t : Ty) :
    s.shown t = t.tree.bind fun leaf => s.shown leaf.toTy := by
  simp only [shown]
  rw [view_eq_bind, Term.map_bind]

theorem shown_node {head : Head} {parts : List Ty} (top : t.node? = some (head, parts)) :
    s.shown t = .node head (parts.map s.shown) := by
  simp only [shown, view_node top, Term.map_node, List.map_map]
  rfl

@[simp] theorem shown_missing (mark : Nat) : s.shown (.missing mark) = .atom .missing := by
  simp [shown, shownAtom]

theorem shown_unbound (free : s.state ref = .unbound level) :
    s.shown (.cell ref) = .atom (.unbound (s.cell ref).id level) := by
  simp [shown, shownAtom, view_unbound free, free]

theorem shown_generic (generic : s.state ref = .generic) :
    s.shown (.cell ref) = .atom (.generic (s.cell ref).id) := by
  simp [shown, shownAtom, view_generic generic]

theorem shown_linked (finite : s.Finite (.cell ref)) (linked : s.state ref = .linked target) :
    s.shown (.cell ref) = s.shown target := by
  rw [shown, view_linked finite linked, shown]

def Same (s s' : Store) (t : Ty) : Prop := ∀ ref, s.Reaches t ref → s'.cell ref = s.cell ref

namespace Same

theorem state (same : s.Same s' t) (leaf : .cell ref ∈ t.leaves) : s'.state ref = s.state ref :=
  congrArg Cell.state (same ref (.here leaf))

theorem link (same : s.Same s' t) (leaf : .cell ref ∈ t.leaves)
    (linked : s.state ref = .linked target) : s.Same s' target :=
  fun other reach => same other (.through leaf linked reach)

theorem part {head : Head} {parts : List Ty} (same : s.Same s' t)
    (top : t.node? = some (head, parts)) {part : Ty} (member : part ∈ parts) : s.Same s' part :=
  fun _ reach => same _ (reach.mono (Ty.leaves_part_subset top member))

theorem throughout (same : s.Same s' t) (all : s.Throughout P t) : s'.Throughout P t := by
  induction all with
  | intro here below ih =>
    refine .intro here fun ref target leaf linked => ?_
    have before := (same.state leaf) ▸ linked
    exact ih ref target leaf before (same.link leaf before)

theorem reaches (same : s.Same s' t) (reach : s'.Reaches t ref) : s.Reaches t ref := by
  induction reach with
  | here leaf => exact .here leaf
  | through leaf linked _ ih =>
    have before := (same.state leaf) ▸ linked
    exact .through leaf before (ih (same.link leaf before))

theorem shown_eq (same : s.Same s' t) (finite : s.Finite t) : s'.shown t = s.shown t := by
  induction finite using Finite.induction with
  | missing mark => rw [shown_missing, shown_missing]
  | plain ref _ plain =>
    have cell := same ref (.here Ty.cell_mem_leaves)
    cases state : s.state ref with
    | linked target => exact absurd state (plain target)
    | unbound level =>
      rw [shown_unbound state, shown_unbound ((same.state Ty.cell_mem_leaves).trans state), cell]
    | generic =>
      rw [shown_generic state, shown_generic ((same.state Ty.cell_mem_leaves).trans state), cell]
  | linked ref target finite linked ih =>
    have linked' := (same.state Ty.cell_mem_leaves).trans linked
    rw [shown_linked finite linked, shown_linked (same.throughout finite) linked',
      ih (same.link Ty.cell_mem_leaves linked)]
  | node t head parts finite top ih =>
    rw [shown_node top, shown_node top]
    congr 1
    apply List.map_congr_left
    intro part member
    exact ih part member (same.part top member)

theorem headWithin_eq (same : s.Same s' t) (n : Nat) : s'.headWithin n t = s.headWithin n t := by
  induction n generalizing t with
  | zero => rfl
  | succ n ih =>
    cases t with
    | cell ref =>
      simp only [headWithin, same.state Ty.cell_mem_leaves]
      cases state : s.state ref with
      | linked target => exact ih (same.link Ty.cell_mem_leaves state)
      | unbound | generic => rfl
    | _ => rfl

theorem head_eq (same : s.Same s' t) (finite : s.Finite t) : s'.head t = s.head t := by
  have finite' : s'.Finite t := same.throughout finite
  calc s'.head t
    _ = s'.headWithin (max s.depth s'.depth) t :=
      (finite'.terminates.head _ (Nat.le_max_right _ _)).symm
    _ = s.headWithin (max s.depth s'.depth) t := same.headWithin_eq _
    _ = s.head t := finite.terminates.head _ (Nat.le_max_left _ _)

theorem resolveWithin_eq (same : s.Same s' t) (n : Nat) :
    s'.resolveWithin n t = s.resolveWithin n t := by
  induction n generalizing t with
  | zero => rfl
  | succ n ih =>
    have bind : ∀ {α β : Type} {x y : Id α} {f g : α → Id β}, x = y → (∀ a, f a = g a) →
        (x >>= f) = (y >>= g) := by
      intro α β x y f g first rest
      rw [first, funext rest]
    refine replaceM_related (P := fun x y => x = y) (fun _ => rfl) bind fun leaf met => ?_
    cases leaf with
    | missing mark => rfl
    | cell ref =>
      have here := same.state met
      cases state : s.state ref with
      | linked target =>
        simp only [here, state]
        exact ih (same.link met state)
      | unbound | generic => simp only [here, state]

theorem resolve_eq (same : s.Same s' t) (size : s'.size = s.size) : s'.resolve t = s.resolve t := by
  rw [resolve, resolve, depth, depth, size, same.resolveWithin_eq]

end Same

end Store

end LetPoly
