import LetPoly.Ty.Basic

namespace LetPoly

/-- What a type is built with at its top. The labels of a row stand in the order they are written. -/
inductive Head
  | const (decl : DeclName)
  | app (decl : DeclName)
  | tuple
  | fn
  | record (labels : List String)
  | signature (labels : List String)
deriving DecidableEq, Repr

inductive Term (α : Type)
  | atom (a : α)
  | node (head : Head) (args : List (Term α))
deriving Repr

namespace Term

variable {α β γ : Type}

@[elab_as_elim, induction_eliminator]
theorem induction {motive : Term α → Prop} (atom : ∀ a, motive (.atom a))
    (node : ∀ head args, (∀ t ∈ args, motive t) → motive (.node head args)) (t : Term α) :
    motive t := by
  refine @Term.rec α motive (fun args => ∀ t ∈ args, motive t) atom node ?_ ?_ t
  · intro t member
    cases member
  · intro t ts first rest u member
    rcases List.mem_cons.mp member with rfl | member
    · exact first
    · exact rest u member

mutual

def bind (f : α → Term β) : Term α → Term β
  | .atom a => f a
  | .node head args => .node head (bindAll f args)

def bindAll (f : α → Term β) : List (Term α) → List (Term β)
  | [] => []
  | t :: ts => t.bind f :: bindAll f ts

end

mutual

def atoms : Term α → List α
  | .atom a => [a]
  | .node _ args => atomsOfAll args

def atomsOfAll : List (Term α) → List α
  | [] => []
  | t :: ts => t.atoms ++ atomsOfAll ts

end

mutual

def heads : Term α → List Head
  | .atom _ => []
  | .node head args => head :: headsOfAll args

def headsOfAll : List (Term α) → List Head
  | [] => []
  | t :: ts => t.heads ++ headsOfAll ts

end

mutual

def height : Term α → Nat
  | .atom _ => 0
  | .node _ args => heightOfAll args + 1

def heightOfAll : List (Term α) → Nat
  | [] => 0
  | t :: ts => max t.height (heightOfAll ts)

end

@[simp] theorem bind_atom (f : α → Term β) (a : α) : (Term.atom a).bind f = f a := by
  simp [bind]

@[simp] theorem bind_node (f : α → Term β) (head : Head) (args : List (Term α)) :
    (Term.node head args).bind f = .node head (args.map (·.bind f)) := by
  have all : bindAll f args = args.map (·.bind f) := by
    induction args with
    | nil => rfl
    | cons t ts ih => simp [bindAll, ih]
  simp [bind, all]

@[simp] theorem atoms_atom (a : α) : (Term.atom a).atoms = [a] := by
  simp [atoms]

@[simp] theorem atoms_node (head : Head) (args : List (Term α)) :
    (Term.node head args).atoms = args.flatMap atoms := by
  have all : atomsOfAll args = args.flatMap atoms := by
    induction args with
    | nil => rfl
    | cons t ts ih => simp [atomsOfAll, ih]
  simp [atoms, all]

@[simp] theorem heads_atom (a : α) : (Term.atom a).heads = [] := by
  simp [heads]

@[simp] theorem heads_node (head : Head) (args : List (Term α)) :
    (Term.node head args).heads = head :: args.flatMap heads := by
  have all : headsOfAll args = args.flatMap heads := by
    induction args with
    | nil => rfl
    | cons t ts ih => simp [headsOfAll, ih]
  simp [heads, all]

@[simp] theorem height_atom (a : α) : (Term.atom a).height = 0 := by
  simp [height]

theorem height_lt_of_mem {head : Head} {args : List (Term α)} {t : Term α} (member : t ∈ args) :
    t.height < (Term.node head args).height := by
  simp only [height, Nat.lt_succ_iff]
  induction args with
  | nil => cases member
  | cons u us ih =>
    simp only [heightOfAll]
    rcases List.mem_cons.mp member with rfl | member
    · exact Nat.le_max_left _ _
    · exact Nat.le_trans (ih member) (Nat.le_max_right _ _)

theorem height_node_le {head : Head} {args : List (Term α)} {n : Nat}
    (bound : ∀ t ∈ args, t.height ≤ n) : (Term.node head args).height ≤ n + 1 := by
  simp only [height, Nat.add_le_add_iff_right]
  induction args with
  | nil => exact Nat.zero_le n
  | cons u us ih =>
    simp only [heightOfAll]
    exact Nat.max_le.mpr ⟨bound u (by simp), ih fun t member => bound t (by simp [member])⟩

theorem bind_congr {f g : α → Term β} {t : Term α} (same : ∀ a ∈ t.atoms, f a = g a) :
    t.bind f = t.bind g := by
  induction t with
  | atom a => simpa using same
  | node head args ih =>
    simp only [bind_node, node.injEq, true_and]
    apply List.map_congr_left
    intro u member
    exact ih u member fun a inside => same a (by simpa using ⟨u, member, inside⟩)

theorem bind_bind (f : α → Term β) (g : β → Term γ) (t : Term α) :
    (t.bind f).bind g = t.bind fun a => (f a).bind g := by
  induction t with
  | atom a => simp
  | node head args ih => simpa using ih

@[simp] theorem bind_pure (t : Term α) : t.bind .atom = t := by
  induction t with
  | atom a => simp
  | node head args ih =>
    simp only [bind_node, node.injEq, true_and]
    exact (List.map_congr_left ih).trans (List.map_id args)

theorem mem_atoms_bind {f : α → Term β} {t : Term α} {b : β} :
    b ∈ (t.bind f).atoms ↔ ∃ a ∈ t.atoms, b ∈ (f a).atoms := by
  induction t with
  | atom a => simp
  | node head args ih =>
    simp only [bind_node, atoms_node, List.flatMap_map, List.mem_flatMap]
    constructor
    · rintro ⟨t, member, inside⟩
      obtain ⟨a, atom, inside⟩ := (ih t member).mp inside
      exact ⟨a, ⟨t, member, atom⟩, inside⟩
    · rintro ⟨a, ⟨t, member, atom⟩, inside⟩
      exact ⟨t, member, (ih t member).mpr ⟨a, atom, inside⟩⟩

theorem mem_heads_bind {f : α → Term β} {t : Term α} {head : Head} :
    head ∈ (t.bind f).heads ↔ head ∈ t.heads ∨ ∃ a ∈ t.atoms, head ∈ (f a).heads := by
  induction t with
  | atom a => simp
  | node top args ih =>
    simp only [bind_node, heads_node, List.flatMap_map, List.mem_cons, List.mem_flatMap, atoms_node]
    constructor
    · rintro (rfl | ⟨t, member, inside⟩)
      · exact .inl (.inl rfl)
      · rcases (ih t member).mp inside with inside | ⟨a, atom, inside⟩
        · exact .inl (.inr ⟨t, member, inside⟩)
        · exact .inr ⟨a, ⟨t, member, atom⟩, inside⟩
    · rintro ((rfl | ⟨t, member, inside⟩) | ⟨a, ⟨t, member, atom⟩, inside⟩)
      · exact .inl rfl
      · exact .inr ⟨t, member, (ih t member).mpr (.inl inside)⟩
      · exact .inr ⟨t, member, (ih t member).mpr (.inr ⟨a, atom, inside⟩)⟩

def map (f : α → β) (t : Term α) : Term β := t.bind fun a => .atom (f a)

@[simp] theorem map_atom (f : α → β) (a : α) : (Term.atom a).map f = .atom (f a) := bind_atom _ a

@[simp] theorem map_node (f : α → β) (head : Head) (args : List (Term α)) :
    (Term.node head args).map f = .node head (args.map (map f)) := bind_node _ head args

theorem map_map (f : α → β) (g : β → γ) (t : Term α) : (t.map f).map g = t.map fun a => g (f a) := by
  simp only [map, bind_bind, bind_atom]

theorem map_bind (f : α → Term β) (g : β → γ) (t : Term α) :
    (t.bind f).map g = t.bind fun a => (f a).map g := bind_bind _ _ t

theorem map_congr {f g : α → β} {t : Term α} (same : ∀ a ∈ t.atoms, f a = g a) :
    t.map f = t.map g :=
  bind_congr fun a member => by rw [same a member]

theorem map_eq_self {f : α → α} {t : Term α} (same : ∀ a ∈ t.atoms, f a = a) : t.map f = t :=
  (bind_congr fun a member => by rw [same a member]).trans (bind_pure t)

theorem atoms_map (f : α → β) (t : Term α) : (t.map f).atoms = t.atoms.map f := by
  induction t with
  | atom a => simp
  | node head args ih =>
    simp only [map_node, atoms_node, List.flatMap_map, List.map_flatMap]
    simp only [List.flatMap_def]
    rw [List.map_congr_left ih]

mutual

def fold (atom : α → β) (node : Head → List β → β) : Term α → β
  | .atom a => atom a
  | .node head args => node head (foldAll atom node args)

def foldAll (atom : α → β) (node : Head → List β → β) : List (Term α) → List β
  | [] => []
  | t :: ts => t.fold atom node :: foldAll atom node ts

end

@[simp] theorem fold_atom (atom : α → β) (node : Head → List β → β) (a : α) :
    (Term.atom a).fold atom node = atom a := by
  simp [fold]

@[simp] theorem fold_node (atom : α → β) (node : Head → List β → β) (head : Head)
    (args : List (Term α)) :
    (Term.node head args).fold atom node = node head (args.map (fold atom node)) := by
  have all : foldAll atom node args = args.map (fold atom node) := by
    induction args with
    | nil => rfl
    | cons t ts ih => simp [foldAll, ih]
  simp [fold, all]

end Term

end LetPoly
