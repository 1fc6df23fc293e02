import LetPoly.Proofs.View

namespace LetPoly

abbrev Substitution := Nat → Term Atom

def Atom.subst (θ : Substitution) : Atom → Term Atom
  | .var ref => θ ref
  | a => .atom a

def Atom.instantiate (φ : Int → Term Atom) : Atom → Term Atom
  | .rigid id => φ id
  | a => .atom a

namespace Term

variable {τ : Term Atom} {θ θ' : Substitution} {φ φ' : Int → Term Atom} {ref : Nat}

def subst (θ : Substitution) (τ : Term Atom) : Term Atom := τ.bind (Atom.subst θ)

def instantiate (φ : Int → Term Atom) (τ : Term Atom) : Term Atom := τ.bind (Atom.instantiate φ)

def Mono (τ : Term Atom) : Prop := ∀ a ∈ τ.atoms, ∃ ref, a = .var ref

def vars (refs : List Nat) : List (Term Atom) := refs.map fun ref => .atom (.var ref)

theorem mem_vars {refs : List Nat} : τ ∈ vars refs ↔ ∃ ref ∈ refs, τ = .atom (.var ref) := by
  simp only [vars, List.mem_map, eq_comm]

theorem var_mem_vars {refs : List Nat} : (∃ σ ∈ vars refs, .var ref ∈ σ.atoms) ↔ ref ∈ refs := by
  constructor
  · rintro ⟨σ, member, met⟩
    obtain ⟨other, inside, rfl⟩ := mem_vars.mp member
    obtain rfl : ref = other := by simpa using met
    exact inside
  · intro inside
    exact ⟨_, mem_vars.mpr ⟨ref, inside, rfl⟩, by simp⟩

@[simp] theorem subst_atom (a : Atom) : (Term.atom a).subst θ = a.subst θ := bind_atom _ a

@[simp] theorem subst_node (head : Head) (args : List (Term Atom)) :
    (Term.node head args).subst θ = .node head (args.map (subst θ)) := bind_node _ head args

@[simp] theorem instantiate_atom (a : Atom) : (Term.atom a).instantiate φ = a.instantiate φ :=
  bind_atom _ a

@[simp] theorem instantiate_node (head : Head) (args : List (Term Atom)) :
    (Term.node head args).instantiate φ = .node head (args.map (instantiate φ)) :=
  bind_node _ head args

theorem subst_congr (same : ∀ ref, .var ref ∈ τ.atoms → θ ref = θ' ref) : τ.subst θ = τ.subst θ' := by
  apply bind_congr
  intro a member
  cases a with
  | var ref => exact same ref member
  | missing | rigid => rfl

theorem instantiate_congr (same : ∀ id, .rigid id ∈ τ.atoms → φ id = φ' id) :
    τ.instantiate φ = τ.instantiate φ' := by
  apply bind_congr
  intro a member
  cases a with
  | rigid id => exact same id member
  | missing | var => rfl

theorem subst_var (τ : Term Atom) : τ.subst (fun ref => .atom (.var ref)) = τ := by
  have same : Atom.subst (fun ref => .atom (.var ref)) = Term.atom := by
    funext a
    cases a <;> rfl
  rw [subst, same, bind_pure]

theorem subst_eq_self (fixed : ∀ ref, .var ref ∈ τ.atoms → θ ref = .atom (.var ref)) :
    τ.subst θ = τ :=
  (subst_congr fixed).trans (subst_var τ)

theorem instantiate_rigid (τ : Term Atom) : τ.instantiate (fun id => .atom (.rigid id)) = τ := by
  have same : Atom.instantiate (fun id => .atom (.rigid id)) = Term.atom := by
    funext a
    cases a <;> rfl
  rw [instantiate, same, bind_pure]

theorem subst_subst (θ θ' : Substitution) (τ : Term Atom) :
    (τ.subst θ).subst θ' = τ.subst fun ref => (θ ref).subst θ' := by
  rw [subst, subst, bind_bind]
  apply bind_congr
  intro a _
  cases a <;> simp [Atom.subst, subst]

theorem map_subst_vars (θ : Substitution) (refs : List Nat) :
    (vars refs).map (subst θ) = refs.map θ := by
  simp only [vars, List.map_map]
  apply List.map_congr_left
  intro ref _
  exact subst_atom _

theorem var_mem_subst {ref : Nat} :
    .var ref ∈ (τ.subst θ).atoms ↔ ∃ other, .var other ∈ τ.atoms ∧ .var ref ∈ (θ other).atoms := by
  rw [subst, mem_atoms_bind]
  constructor
  · rintro ⟨a, member, inside⟩
    cases a with
    | var other => exact ⟨other, member, inside⟩
    | missing | rigid => simp [Atom.subst] at inside
  · rintro ⟨other, member, inside⟩
    exact ⟨.var other, member, inside⟩

namespace Mono

theorem instantiate_eq (mono : τ.Mono) : τ.instantiate φ = τ := by
  refine (instantiate_congr fun id member => ?_).trans (instantiate_rigid τ)
  obtain ⟨ref, same⟩ := mono _ member
  cases same

theorem instantiate_subst (mono : τ.Mono) (θ : Substitution) (φ : Int → Term Atom) :
    (τ.subst θ).instantiate φ = τ.subst fun ref => (θ ref).instantiate φ := by
  rw [subst, instantiate, bind_bind]
  apply bind_congr
  intro a member
  obtain ⟨ref, rfl⟩ := mono a member
  rfl

theorem node {head : Head} {args : List (Term Atom)} (mono : ∀ arg ∈ args, arg.Mono) :
    (Term.node head args).Mono := by
  intro a inside
  simp only [atoms_node, List.mem_flatMap] at inside
  obtain ⟨arg, member, inside⟩ := inside
  exact mono arg member a inside

theorem var (ref : Nat) : (Term.atom (.var ref)).Mono := by
  intro a member
  exact ⟨ref, by simpa using member⟩

end Mono

end Term

end LetPoly
