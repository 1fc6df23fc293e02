import LetPoly.Proofs.Batch.Mirror
import LetPoly.Scheme

namespace LetPoly

theorem isWord_wrap64 (n : Int) : IsWord (wrap64 n) := by
  have low := Int.le_bmod (x := n) (m := wordCount) (by decide)
  have high := Int.bmod_lt (x := n) (m := wordCount) (by decide)
  simp only [wordCount] at low high
  simp only [IsWord, wrap64, wordLimit, wordCount]
  omega

theorem wrap64_le {n : Int} (low : -(wordLimit : Int) ≤ n) : wrap64 n ≤ n := by
  have word := isWord_wrap64 n
  have rest : wrap64 n % wordCount = n % wordCount := Int.bmod_emod
  simp only [IsWord, wordLimit, wordCount] at low word rest
  omega

theorem wrap64_next_add (n : Int) (k : Nat) :
    wrap64 (wrap64 (n + 1) + k) = wrap64 (n + (k + 1 : Nat)) := by
  rw [wrap64_wrap64_add]
  congr 1
  omega

/-- Levels that count up from one above the mark of a link come to it only once around the words. -/
theorem wrap64_add_ne_linkLevel {level : Int} {k : Nat} (above : linkLevel < level)
    (far : level + k < (wordCount : Int) + linkLevel) : wrap64 (level + k) ≠ linkLevel := by
  intro same
  have rest := congrArg (· % (wordCount : Int)) same
  simp only [wrap64, Int.bmod_emod, wordCount, linkLevel] at rest above far
  omega

namespace Mirror

variable {m : Mirror} {p p' : Supply} {s : Store} {id : Int} {n N : Nat}

def Made (m : Mirror) (s : Store) (id : Int) : Prop :=
  ∃ ref, m.size ≤ ref ∧ ref < s.size ∧ (s.cell ref).id = id

/-- The first run has drawn so many numbers, one after the other, and has made no variable with
    another number. -/
structure Drawn (m : Mirror) (p : Supply) (n : Nat) : Prop where
  next : p.nextId = wrap64 (m.start.nextId + n)
  made : ∀ id, m.Made p.store id ↔ ∃ j, j < n ∧ id = wrap64 (m.start.nextId + j)

structure Twin (m : Mirror) (p p' : Supply) : Prop where
  lies : m.Lies p.store p'.store
  size : p'.store.size = p.store.size + m.gap
  next : p'.nextId = m.number p.nextId
  drawn : ∃ n, m.Drawn p n

theorem made_alloc {state : VarState} {other : Int} (le : m.size ≤ s.size) :
    m.Made (s.alloc id state).2 other ↔ m.Made s other ∨ other = id := by
  constructor
  · rintro ⟨ref, new, inside, rfl⟩
    rw [Store.size_alloc] at inside
    by_cases last : ref = s.size
    · subst last
      exact .inr (by rw [Store.cell_alloc_self])
    · rw [Store.cell_alloc _ _ _ (by omega)]
      exact .inl ⟨ref, new, by omega, rfl⟩
  · rintro (⟨ref, new, inside, rfl⟩ | rfl)
    · refine ⟨ref, new, ?_, by rw [Store.cell_alloc _ _ _ inside]⟩
      rw [Store.size_alloc]
      omega
    · refine ⟨s.size, le, ?_, by rw [Store.cell_alloc_self]⟩
      rw [Store.size_alloc]
      omega

theorem Made.extend {s' : Store} (made : m.Made s id) (ext : s.Extends s') : m.Made s' id := by
  obtain ⟨ref, new, inside, same⟩ := made
  exact ⟨ref, new, Nat.lt_of_lt_of_le inside ext.size, by rw [ext.cell ref inside, same]⟩

theorem Drawn.draw (drawn : m.Drawn p n) (le : m.size ≤ p.store.size) (state : VarState) :
    m.Drawn (p.fresh state).2 (n + 1) := by
  constructor
  · simp only [Supply.fresh, drawn.next, wrap64_wrap64_add]
    congr 1
    omega
  · intro id
    simp only [Supply.fresh, made_alloc le, drawn.made]
    constructor
    · rintro (⟨j, less, rfl⟩ | rfl)
      · exact ⟨j, by omega, rfl⟩
      · exact ⟨n, by omega, drawn.next⟩
    · rintro ⟨j, less, rfl⟩
      by_cases last : j = n
      · exact .inr (last ▸ drawn.next.symm)
      · exact .inl ⟨j, by omega, rfl⟩

namespace Twin

theorem word (twin : m.Twin p p') : IsWord p.nextId := by
  obtain ⟨n, drawn⟩ := twin.drawn
  rw [drawn.next]
  exact isWord_wrap64 _

theorem size_le (twin : m.Twin p p') : m.size ≤ p.store.size := twin.lies.grown.size

theorem draw (twin : m.Twin p p') (level : Int) (marked : level = linkLevel → m.loose) :
    m.Twin (p.freshUnbound level).2 (p'.freshUnbound level).2 := by
  obtain ⟨n, drawn⟩ := twin.drawn
  refine ⟨?_, ?_, ?_, n + 1, drawn.draw twin.size_le _⟩
  · have lies := twin.lies.alloc twin.size p.nextId level marked
    rw [← twin.next] at lies
    exact lies
  · simp only [Supply.freshUnbound, Supply.fresh, Store.size_alloc, twin.size]
    omega
  · simp only [Supply.freshUnbound, Supply.fresh, twin.next, m.next _ twin.word]

theorem own_draw (twin : m.Twin p p') (level : Int) :
    m.Own (p.freshUnbound level).2.store.size (p.freshUnbound level).1 (p'.freshUnbound level).1 := by
  have le := twin.size_le
  have place : m.place p.store.size = p'.store.size := by rw [place_new le, twin.size]
  refine ⟨mates_cell_iff.mpr (by rw [place]; rfl), fun leaf met => ?_⟩
  rw [List.mem_singleton.mp met]
  refine .inl ⟨le, ?_⟩
  simp only [Supply.freshUnbound, Supply.fresh, Store.size_alloc]
  omega

theorem name {s s' : Store} {next next' : Int} (twin : m.Twin ⟨s, next⟩ ⟨s', next'⟩)
    (made : m.Made s id) :
    m.Twin ⟨(s.alloc id .generic).2, next⟩ ⟨(s'.alloc (m.number id) .generic).2, next'⟩ := by
  obtain ⟨n, drawn⟩ := twin.drawn
  refine ⟨twin.lies.alloc twin.size id genericLevel fun same => ?_, ?_, twin.next, n, drawn.next,
    fun other => ?_⟩
  · cases same
  · have size := twin.size
    simp only [Store.size_alloc] at size ⊢
    omega
  · rw [← drawn.made, made_alloc twin.size_le]
    exact or_iff_left_of_imp fun same => same ▸ made

theorem mark {s s' : Store} {next next' : Int} (twin : m.Twin ⟨s, next⟩ ⟨s', next'⟩) :
    m.Twin ⟨s.freshMissing.2, next⟩ ⟨s'.freshMissing.2, next'⟩ := by
  obtain ⟨n, drawn⟩ := twin.drawn
  have grown := twin.lies.grown.trans (Store.extends_freshMissing s)
  exact ⟨⟨grown, twin.lies.made, twin.lies.old, twin.lies.new, twin.lies.inside⟩, twin.size,
    twin.next, n, drawn.next, drawn.made⟩

end Twin

end Mirror

end LetPoly
