import LetPoly.Proofs.Inference.Steps

namespace LetPoly

def Term.base (name : String) : Term Atom := .node (.const { name }) []

def Term.list (τ : Term Atom) : Term Atom := .node (.app { name := "List" }) [τ]

abbrev Schemes := String → Option (Term Atom)

namespace Schemes

def bind (Γ : Schemes) (name : String) (σ : Term Atom) : Schemes :=
  fun other => if other = name then some σ else Γ other

def bindParams (Γ : Schemes) : List Param → List (Term Atom) → Schemes
  | param :: params, σ :: σs => (Γ.bind param.name σ).bindParams params σs
  | _, _ => Γ

def Free (Γ : Schemes) (ref : Nat) : Prop := ∃ name σ, Γ name = some σ ∧ .var ref ∈ σ.atoms

open Classical in
noncomputable def closing (Γ : Schemes) (number : Nat → Int) : Substitution := fun ref =>
  if Γ.Free ref then .atom (.var ref) else .atom (.rigid (number ref))

variable {Γ : Schemes} {ref : Nat} {number : Nat → Int}

theorem closing_free (free : Γ.Free ref) : Γ.closing number ref = .atom (.var ref) := if_pos free

theorem closing_bound (bound : ¬ Γ.Free ref) :
    Γ.closing number ref = .atom (.rigid (number ref)) := if_neg bound

theorem free_of_mem_closing {τ : Term Atom} (member : .var ref ∈ (τ.subst (Γ.closing number)).atoms) :
    Γ.Free ref ∧ .var ref ∈ τ.atoms := by
  obtain ⟨other, met, kept⟩ := Term.var_mem_subst.mp member
  by_cases free : Γ.Free other
  · rw [closing_free free, Term.atoms_atom, List.mem_singleton, Atom.var.injEq] at kept
    exact ⟨kept ▸ free, kept ▸ met⟩
  · rw [closing_bound free] at kept
    simp at kept

theorem free_bind {name : String} {σ : Term Atom} (free : (Γ.bind name σ).Free ref) :
    Γ.Free ref ∨ .var ref ∈ σ.atoms := by
  obtain ⟨other, σ', bound, member⟩ := free
  simp only [bind] at bound
  split at bound
  · cases bound
    exact .inr member
  · exact .inl ⟨other, σ', bound, member⟩

theorem free_bindParams {params : List Param} {σs : List (Term Atom)}
    (free : (Γ.bindParams params σs).Free ref) : Γ.Free ref ∨ ∃ σ ∈ σs, .var ref ∈ σ.atoms := by
  induction params generalizing Γ σs with
  | nil => exact .inl free
  | cons param params ih =>
    cases σs with
    | nil => exact .inl free
    | cons σ σs =>
      rcases ih free with free | ⟨other, member, met⟩
      · rcases free_bind free with free | met
        · exact .inl free
        · exact .inr ⟨σ, by simp, met⟩
      · exact .inr ⟨other, by simp [member], met⟩

end Schemes

def Instance (σ τ : Term Atom) : Prop := τ.Mono ∧ ∃ φ, τ = σ.instantiate φ

/-- The scheme of a type among others: every variable that is not free in the others is made
    generic, each under a number of its own, and all others are kept. -/
def Closes (Γ : Schemes) (τ σ : Term Atom) : Prop :=
  ∃ number : Nat → Int, σ = τ.subst (Γ.closing number) ∧
    ∀ ref ref', .var ref ∈ τ.atoms → .var ref' ∈ τ.atoms → ¬ Γ.Free ref → ¬ Γ.Free ref' →
      number ref = number ref' → ref = ref'

theorem Instance.of_mono {τ : Term Atom} (mono : τ.Mono) : Instance τ τ :=
  ⟨mono, fun id => .atom (.rigid id), (Term.instantiate_rigid τ).symm⟩

theorem Closes.intro (Γ : Schemes) (τ : Term Atom) : Closes Γ τ (τ.subst (Γ.closing Int.ofNat)) :=
  ⟨Int.ofNat, rfl, fun _ _ _ _ _ _ same => Int.ofNat.inj same⟩

/-- The typing rules. `Marked` says how a type that is written into an expression is to stand for
    the type that the rule gives. -/
inductive Typing (Marked : Ty → Term Atom → Prop) : Schemes → Expr → Term Atom → Prop
  | literal {Γ : Schemes} {e : Expr} {name : String} (literal : e.literal? = some name) :
    Typing Marked Γ e (.base name)
  | seq {Γ : Schemes} {pos : Pos} {first body : Expr} {τ₁ τ : Term Atom}
    (typedFirst : Typing Marked Γ first τ₁) (typedBody : Typing Marked Γ body τ) :
    Typing Marked Γ (.seq pos first body) τ
  | var {Γ : Schemes} {pos : Pos} {name : String} {scope : Scope} {type : Ty} {σ τ : Term Atom}
    (bound : Γ name = some σ) (inst : Instance σ τ) (marked : Marked type τ) :
    Typing Marked Γ (.var pos name scope type) τ
  | fn {Γ : Schemes} {pos : Pos} {params : List Param} {body : Expr} {type : Ty}
    {σs : List (Term Atom)} {τ : Term Atom} (length : σs.length = params.length)
    (mono : ∀ σ ∈ σs, σ.Mono) (typedBody : Typing Marked (Γ.bindParams params σs) body τ)
    (marked : Marked type (.node .fn (σs ++ [τ]))) :
    Typing Marked Γ (.fn pos params body type) (.node .fn (σs ++ [τ]))
  | letIn {Γ : Schemes} {pos namePos : Pos} {name : String} {value body : Expr} {bound : Ty}
    {τ₁ σ τ : Term Atom} (typedValue : Typing Marked Γ value τ₁) (closes : Closes Γ τ₁ σ)
    (marked : Marked bound σ) (typedBody : Typing Marked (Γ.bind name σ) body τ) :
    Typing Marked Γ (.letIn pos (.var namePos name) value body bound) τ
  | nil {Γ : Schemes} {pos : Pos} {type : Ty} {τ : Term Atom} (mono : τ.Mono)
    (marked : Marked type (.list τ)) : Typing Marked Γ (.nil pos type) (.list τ)

abbrev HasType (Γ : Schemes) : Expr → Term Atom → Prop := Typing (fun _ _ => True) Γ

namespace Typing

variable {Marked Marked' : Ty → Term Atom → Prop} {Γ : Schemes} {e : Expr} {τ : Term Atom}
  {s : Store}

theorem imp (typing : Typing Marked Γ e τ) (weaker : ∀ t τ, Marked t τ → Marked' t τ) :
    Typing Marked' Γ e τ := by
  induction typing with
  | literal literal => exact .literal literal
  | seq _ _ ihFirst ihBody => exact .seq ihFirst ihBody
  | var bound inst marked => exact .var bound inst (weaker _ _ marked)
  | fn length mono _ marked ih => exact .fn length mono ih (weaker _ _ marked)
  | letIn _ closes marked _ ihValue ihBody => exact .letIn ihValue closes (weaker _ _ marked) ihBody
  | nil mono marked => exact .nil mono (weaker _ _ marked)

theorem mono (typing : Typing Marked Γ e τ) : τ.Mono := by
  induction typing with
  | literal => exact .node nofun
  | seq _ _ _ ih => exact ih
  | var _ inst => exact inst.1
  | fn _ mono _ _ ih =>
    refine .node fun σ member => ?_
    rcases List.mem_append.mp member with member | member
    · exact mono σ member
    · exact List.mem_singleton.mp member ▸ ih
  | letIn _ _ _ _ _ ih => exact ih
  | nil mono => exact .node (List.forall_mem_singleton.mpr mono)

theorem typeIn (typing : Typing s.Reads Γ e τ) : ∃ t, e.typeIn s = .ok t ∧ s.Reads t τ := by
  induction typing with
  | @literal Γ e name literal =>
    have reads : s.Reads (.const { name }) (.base name) := .node rfl .nil
    cases e <;> cases literal <;> exact ⟨_, rfl, reads⟩
  | seq _ _ _ ih => exact ih
  | var _ _ reads => exact ⟨_, rfl, reads.head⟩
  | fn _ _ _ reads => exact ⟨_, rfl, reads⟩
  | letIn _ _ _ _ _ ih => exact ih
  | nil _ reads => exact ⟨_, rfl, reads.head⟩

theorem reads {t : Ty} (typing : Typing s.Reads Γ e τ) (shown : e.typeIn s = .ok t) : s.Reads t τ := by
  obtain ⟨u, type, reads⟩ := typing.typeIn
  rw [shown] at type
  cases type
  exact reads

theorem typeIn_nodes (typing : Typing s.Reads Γ e τ) :
    ∀ node ∈ e.nodes, ∃ t, node.typeIn s = .ok t ∧ s.Complete t := by
  have top : ∀ {Γ e τ}, Typing s.Reads Γ e τ → ∃ t, e.typeIn s = .ok t ∧ s.Complete t := by
    intro Γ e τ typing
    obtain ⟨t, type, reads⟩ := typing.typeIn
    exact ⟨t, type, reads.complete⟩
  induction typing with
  | @literal Γ e name literal =>
    have only : e.nodes = [e] := by
      cases e <;> first | rfl | cases literal
    rw [only]
    exact List.forall_mem_singleton.mpr (top (Γ := Γ) (.literal literal))
  | seq typedFirst typedBody ihFirst ihBody =>
    exact List.forall_mem_cons.mpr
      ⟨top (.seq typedFirst typedBody), List.forall_mem_append.mpr ⟨ihFirst, ihBody⟩⟩
  | var bound inst reads => exact List.forall_mem_singleton.mpr (top (.var bound inst reads))
  | fn length mono typedBody reads ih =>
    exact List.forall_mem_cons.mpr ⟨top (.fn length mono typedBody reads), ih⟩
  | letIn typedValue closes reads typedBody ihValue ihBody =>
    exact List.forall_mem_cons.mpr ⟨top (.letIn typedValue closes reads typedBody),
      List.forall_mem_append.mpr ⟨ihValue, ihBody⟩⟩
  | nil mono reads => exact List.forall_mem_singleton.mpr (top (Γ := fun _ => none) (.nil mono reads))

end Typing

end LetPoly
