import LetPoly.Proofs.Links

namespace LetPoly.Store

variable {s s' : Store} {t u target : Ty} {ref first other : Nat} {n : Nat} {among : Finset Nat}

theorem Reaches.trans (start : s.Reaches t ref) (rest : s.Reaches (.cell ref) other) :
    s.Reaches t other := by
  induction start with
  | here leaf =>
    cases rest with
    | here same =>
      simp only [Ty.leaves, List.mem_singleton, Leaf.cell.injEq] at same
      exact .here (same ▸ leaf)
    | through same linked rest =>
      simp only [Ty.leaves, List.mem_singleton, Leaf.cell.injEq] at same
      subst same
      exact .through leaf linked rest
  | through leaf linked _ ih => exact .through leaf linked (ih rest)

theorem Reaches.head (reach : s.Reaches (s.head t) ref) : s.Reaches t ref := by
  refine head_closed (Q := fun u => s.Reaches u ref → s.Reaches t ref) ?_ id reach
  intro other target linked whole inside
  exact whole ((reaches_linked linked).mpr (.inr inside))

def ReachesIn (s : Store) : Nat → Ty → Nat → Prop
  | 0, _, _ => False
  | n + 1, t, ref => .cell ref ∈ t.leaves ∨
      ∃ first target, .cell first ∈ t.leaves ∧ s.state first = .linked target ∧
        s.ReachesIn n target ref

inductive ReachesAmong (s : Store) (among : Finset Nat) : Ty → Nat → Prop
  | here {t : Ty} {ref : Nat} (leaf : .cell ref ∈ t.leaves) : ReachesAmong s among t ref
  | through {t target : Ty} {first ref : Nat} (leaf : .cell first ∈ t.leaves)
    (member : first ∈ among) (linked : s.state first = .linked target)
    (rest : ReachesAmong s among target ref) : ReachesAmong s among t ref

theorem ReachesIn.reaches (reach : s.ReachesIn n t ref) : s.Reaches t ref := by
  induction n generalizing t with
  | zero => exact reach.elim
  | succ n ih =>
    rcases reach with leaf | ⟨first, target, leaf, linked, rest⟩
    · exact .here leaf
    · exact .through leaf linked (ih rest)

theorem Reaches.among_range (reach : s.Reaches t ref) :
    s.ReachesAmong (Finset.range s.size) t ref := by
  induction reach with
  | here leaf => exact .here leaf
  | through leaf linked _ ih =>
    exact .through leaf (Finset.mem_range.mpr (lt_size_of_linked linked)) linked ih

theorem ReachesAmong.erase (reach : s.ReachesAmong among t ref)
    (linked : s.state first = .linked target) :
    s.ReachesAmong (among.erase first) t ref ∨ s.ReachesAmong (among.erase first) target ref := by
  induction reach with
  | here leaf => exact .inl (.here leaf)
  | @through t next passed ref leaf member passes _ ih =>
    rcases ih with before | after
    · by_cases same : passed = first
      · subst same
        rw [linked] at passes
        cases passes
        exact .inr before
      · exact .inl (.through leaf (Finset.mem_erase.mpr ⟨same, member⟩) passes before)
    · exact .inr after

theorem ReachesAmong.reachesIn (reach : s.ReachesAmong among t ref) :
    s.ReachesIn (among.card + 1) t ref := by
  induction count : among.card generalizing among t with
  | zero =>
    obtain rfl := Finset.card_eq_zero.mp count
    cases reach with
    | here leaf => exact .inl leaf
    | through _ member => exact absurd member (Finset.notMem_empty _)
  | succ n ih =>
    cases reach with
    | here leaf => exact .inl leaf
    | @through _ target passed _ leaf member linked rest =>
      have fewer : (among.erase passed).card = n := by
        rw [Finset.card_erase_of_mem member, count, Nat.add_sub_cancel]
      -- from the link on, the way need not come back to it
      have onward : s.ReachesAmong (among.erase passed) target ref := (rest.erase linked).elim id id
      exact .inr ⟨passed, target, leaf, linked, ih onward fewer⟩

/-- A cell that is met at all is met within as many links as there are cells, also where links
    come back. -/
theorem reachesIn_depth : s.ReachesIn s.depth t ref ↔ s.Reaches t ref := by
  refine ⟨ReachesIn.reaches, fun reach => ?_⟩
  have short := reach.among_range.reachesIn
  rwa [Finset.card_range] at short

theorem reachesIn_congr
    (same : ∀ ref target, s'.state ref = .linked target ↔ s.state ref = .linked target) :
    s'.ReachesIn n t ref ↔ s.ReachesIn n t ref := by
  induction n generalizing t with
  | zero => exact Iff.rfl
  | succ n ih => simp only [ReachesIn, same, ih]

end LetPoly.Store
