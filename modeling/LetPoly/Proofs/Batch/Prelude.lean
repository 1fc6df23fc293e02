import LetPoly.Proofs.Batch.Copies

namespace LetPoly

namespace Store

variable {s s' : Store} {t : Ty} {loose : Prop}

def RootedLeaf (s : Store) (loose : Prop) : Leaf → Prop
  | .missing _ => loose
  | .cell ref => ref < s.size

def Rooted (s : Store) (loose : Prop) (t : Ty) : Prop :=
  s.Throughout (fun u => ∀ leaf ∈ u.leaves, s.RootedLeaf loose leaf) t

def NoUnbound (s : Store) (t : Ty) : Prop :=
  ∀ ref level, s.Reaches t ref → s.state ref ≠ .unbound level

theorem Complete.rooted (complete : s.Complete t) (loose : Prop) : s.Rooted loose t := by
  refine complete.imp fun u within leaf met => ?_
  obtain ⟨ref, inside, rfl⟩ := within leaf met
  exact inside

theorem Rooted.sealed (rooted : s.Rooted loose t) (closed : s.NoUnbound t) : s.Sealed loose t := by
  induction rooted with
  | intro here below ih =>
    refine .intro (fun leaf met => ?_) fun ref target met linked => ?_
    · cases leaf with
      | missing mark => exact here _ met
      | cell ref => exact ⟨here _ met, fun level => closed ref level (.here met)⟩
    · refine ih ref target met linked fun other level reach => ?_
      exact closed other level (.through met linked reach)

end Store

theorem openNames_eq_nil_iff {s : Store} {env : Bindings} :
    openNames s env = [] ↔ ∀ entry ∈ env.entries, s.NoUnbound entry.2 := by
  simp only [openNames, List.map_eq_nil_iff, List.filter_eq_nil_iff, Bool.not_eq_true',
    Bool.not_eq_false, List.isEmpty_iff, Store.unboundIds_eq_nil_iff, Store.NoUnbound]

variable {level base : Int} {env : Bindings} {es results : List Expr} {s : Store}

theorem inferAll_eq_inferFrom (present : env.hasMissing = false)
    (closed : ∀ entry ∈ env.entries, s.NoUnbound entry.2) :
    inferAll level env base false es s = inferFrom level env base 0 es s := by
  simp only [inferAll, present, openNames_eq_nil_iff.mpr closed, List.isEmpty_nil, Bool.not_true,
    Bool.false_eq_true, if_false, Bool.false_and]

theorem inferAll_eq_ok {cancelled : Bool}
    (done : (inferAll level env base cancelled es s).result = .ok results) :
    (∀ entry ∈ env.entries, s.NoUnbound entry.2) ∧ (cancelled = true → es = []) ∧
      inferAll level env base cancelled es s = inferFrom level env base 0 es s := by
  simp only [inferAll] at done ⊢
  split at done
  · cases done
  · split at done
    · cases done
    · split at done
      · cases done
      · rename_i present none going
        have closed : openNames s env = [] := by simpa using none
        refine ⟨openNames_eq_nil_iff.mp closed, fun cancelled => ?_, ?_⟩
        · simpa [cancelled] using going
        · simp only [present, none, going, if_false, Bool.false_eq_true]

theorem Batch.inferAll_tells {b : Batch} {loose : Prop} (present : b.env.hasMissing = false)
    (rooted : ∀ entry ∈ b.env.entries, b.start.store.Rooted loose entry.2)
    (closed : ∀ entry ∈ b.env.entries, b.start.store.NoUnbound entry.2)
    (word : IsWord b.start.nextId)
    (levels : ∀ e ∈ es, ∀ k : Nat, k ≤ e.letDepth → wrap64 (b.level + k) = linkLevel → loose) :
    let r := inferAll b.level b.env b.start.nextId false es b.start.store
    b.Tells loose 0 es r.result r.store := by
  rw [inferAll_eq_inferFrom present closed]
  have whole : ∀ entry ∈ b.env.entries, b.start.store.Sealed loose entry.2 :=
    fun entry member => (rooted entry member).sealed (closed entry member)
  exact inferFrom_tells word whole levels (.refl _) 0

end LetPoly
