import LetPoly.Ty.Text
import Mathlib.Data.Set.Function
import Mathlib.Data.String.Basic

namespace LetPoly

def nameDigits (i : Nat) : List Char := if i < 26 then [] else Nat.toDigits 10 (i / 26)

theorem toList_varName (i : Nat) :
    (varName i).toList = Char.ofNat ('a'.toNat + i % 26) :: nameDigits i := by
  by_cases first : i < 26
  · simp [varName, nameDigits, first]
  · have digits : (toString (i / 26)).toList = Nat.toDigits 10 (i / 26) := String.toList_ofList
    simp only [varName, nameDigits, first, if_false, String.toList_append, String.toList_singleton,
      digits]
    rfl

theorem letter_toNat (i : Nat) : (Char.ofNat ('a'.toNat + i % 26)).toNat = 'a'.toNat + i % 26 := by
  have each : ∀ k < 26, (Char.ofNat ('a'.toNat + k)).toNat = 'a'.toNat + k := by decide
  exact each _ (Nat.mod_lt i (by decide))

theorem nameDigits_eq_nil {i : Nat} : nameDigits i = [] ↔ i < 26 := by
  by_cases first : i < 26
  · simp [nameDigits, first]
  · simp [nameDigits, first, Nat.toDigits_ne_nil]

theorem nameDigits_isDigit {i : Nat} {c : Char} (member : c ∈ nameDigits i) : c.isDigit := by
  by_cases first : i < 26
  · simp [nameDigits, first] at member
  · simp only [nameDigits, first, if_false] at member
    exact Nat.isDigit_of_mem_toDigits (by decide) (by decide) member

theorem varName_injective : Function.Injective varName := by
  intro i j same
  have lists := congrArg String.toList same
  rw [toList_varName, toList_varName, List.cons.injEq] at lists
  obtain ⟨letter, digits⟩ := lists
  have rest : i % 26 = j % 26 := by
    have codes := congrArg Char.toNat letter
    rw [letter_toNat, letter_toNat] at codes
    omega
  have rounds : i / 26 = j / 26 := by
    by_cases first : i < 26
    · have first' : j < 26 := nameDigits_eq_nil.mp (digits ▸ nameDigits_eq_nil.mpr first)
      omega
    · have first' : ¬ j < 26 := fun less =>
        first (nameDigits_eq_nil.mp (digits ▸ nameDigits_eq_nil.mpr less))
      simp only [nameDigits, first, first', if_false] at digits
      have numbers := congrArg (Nat.ofDigitChars 10 · 0) digits
      simpa [Nat.ofDigitChars_toDigits] using numbers
  omega

namespace VarNames

variable {names : VarNames} {ids : List Int} {id other : Int} {f : Int → Int}

def nameOf (names : VarNames) (id : Int) : String := varName (names.seen.idxOf id)

def see (names : VarNames) (ids : List Int) : VarNames :=
  ids.foldl (fun names id => (names.name id).2) names

def renumber (f : Int → Int) (names : VarNames) : VarNames := ⟨names.seen.map f⟩

theorem name_old (old : id ∈ names.seen) : names.name id = (names.nameOf id, names) := by
  have found : names.seen.idxOf? id = some (names.seen.idxOf id) := by
    rw [List.idxOf?, List.findIdx?_eq_some_iff_findIdx_eq]
    exact ⟨List.idxOf_lt_length_iff.mpr old, rfl⟩
  simp only [name, found, nameOf]

theorem name_new (new : id ∉ names.seen) :
    names.name id = (varName names.seen.length, ⟨names.seen ++ [id]⟩) := by
  simp only [name, List.idxOf?_eq_none_iff.mpr new]

@[simp] theorem see_nil (names : VarNames) : names.see [] = names := rfl

theorem see_cons (names : VarNames) (id : Int) (ids : List Int) :
    names.see (id :: ids) = (names.name id).2.see ids := rfl

theorem see_append (names : VarNames) (ids more : List Int) :
    names.see (ids ++ more) = (names.see ids).see more := List.foldl_append

theorem seen_prefix_see (names : VarNames) (ids : List Int) :
    names.seen <+: (names.see ids).seen := by
  induction ids generalizing names with
  | nil => exact List.prefix_rfl
  | cons id ids ih =>
    rw [see_cons]
    refine List.IsPrefix.trans ?_ (ih _)
    by_cases old : id ∈ names.seen
    · exact (name_old old).symm ▸ List.prefix_rfl
    · exact (name_new old).symm ▸ List.prefix_append _ _

theorem mem_seen_see : id ∈ (names.see ids).seen ↔ id ∈ names.seen ∨ id ∈ ids := by
  induction ids generalizing names with
  | nil => simp
  | cons first ids ih =>
    rw [see_cons, ih, List.mem_cons]
    by_cases old : first ∈ names.seen
    · rw [name_old old]
      constructor
      · rintro (member | member)
        · exact .inl member
        · exact .inr (.inr member)
      · rintro (member | rfl | member)
        · exact .inl member
        · exact .inl old
        · exact .inr member
    · rw [name_new old]
      simp only [List.mem_append, List.mem_singleton, or_assoc]

theorem nameOf_see (old : id ∈ names.seen) (ids : List Int) :
    (names.see ids).nameOf id = names.nameOf id := by
  obtain ⟨later, append⟩ := seen_prefix_see names ids
  rw [nameOf, nameOf, ← append, List.idxOf_append_of_mem old]

theorem nameOf_injOn (names : VarNames) : Set.InjOn names.nameOf {id | id ∈ names.seen} := by
  intro id old other _ same
  exact (List.idxOf_inj old).mp (varName_injective same)

theorem name_eq (names : VarNames) (id : Int) :
    names.name id = ((names.see [id]).nameOf id, names.see [id]) := by
  have table : names.see [id] = (names.name id).2 := rfl
  rw [table]
  by_cases old : id ∈ names.seen
  · rw [name_old old]
  · rw [name_new old, nameOf, List.idxOf_append_of_notMem old]
    simp

theorem idxOf_map {ids : List Int} (inj : ∀ other ∈ ids, f other = f id → other = id) :
    (ids.map f).idxOf (f id) = ids.idxOf id := by
  induction ids with
  | nil => rfl
  | cons first ids ih =>
    have rest := ih fun other member => inj other (List.mem_cons_of_mem _ member)
    by_cases same : first = id
    · subst same
      simp
    · have apart : f first ≠ f id := fun equal => same (inj first List.mem_cons_self equal)
      rw [List.map_cons, List.idxOf_cons_ne _ apart, List.idxOf_cons_ne _ same, rest]

theorem nameOf_renumber (inj : ∀ other ∈ names.seen, f other = f id → other = id) :
    (names.renumber f).nameOf (f id) = names.nameOf id := by
  rw [nameOf, nameOf, renumber, idxOf_map inj]

theorem see_renumber (inj : Set.InjOn f {id | id ∈ names.seen ∨ id ∈ ids}) :
    (names.renumber f).see (ids.map f) = (names.see ids).renumber f := by
  induction ids generalizing names with
  | nil => rfl
  | cons id ids ih =>
    have table : ((names.renumber f).name (f id)).2 = (names.name id).2.renumber f := by
      by_cases old : id ∈ names.seen
      · have old' : f id ∈ (names.renumber f).seen := List.mem_map_of_mem old
        rw [name_old old, name_old old']
      · have old' : f id ∉ (names.renumber f).seen := by
          intro member
          obtain ⟨other, seen, same⟩ := List.mem_map.mp member
          exact old (inj (.inl seen) (.inr List.mem_cons_self) same ▸ seen)
        -- both tables are equally long, so the new variable gets the same name
        rw [name_new old, name_new old']
        simp [renumber]
    rw [List.map_cons, see_cons, see_cons, table]
    apply ih
    refine inj.mono fun other member => ?_
    have among : other ∈ (names.see [id]).seen ∨ other ∈ ids := member
    rw [mem_seen_see, List.mem_singleton, or_assoc] at among
    rcases among with seen | rfl | later
    · exact .inl seen
    · exact .inr List.mem_cons_self
    · exact .inr (List.mem_cons_of_mem _ later)

end VarNames

end LetPoly
