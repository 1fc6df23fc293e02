import LetPoly.Proofs.Outcome
import LetPoly.Settings
import Mathlib.Data.List.Forall2
import Mathlib.Data.List.Infix

namespace LetPoly.Settings

structure InRange (s : Settings) : Prop where
  width : 0 < s.width
  level : 0 ≤ s.level
  color : s.color ∈ colors

theorem check_eq_ok_iff {s s' : Settings} : s.check = .ok s' ↔ s.InRange ∧ s = s' := by
  unfold check
  constructor
  · intro done
    split at done
    · cases done
    · split at done
      · cases done
      · split at done
        · cases done
        · rename_i width level color
          cases done
          exact ⟨⟨Int.not_le.mp width, Int.not_lt.mp level, by simpa using color⟩, rfl⟩
  · intro ⟨inRange, same⟩
    have color : colors.contains s.color := List.contains_iff_mem.mpr inRange.color
    rw [if_neg (Int.not_le.mpr inRange.width), if_neg (Int.not_lt.mpr inRange.level), color, same]
    rfl

def get? (s : Settings) : String → Option Toml.Value
  | "width" => some (.int s.width)
  | "level" => some (.int s.level)
  | "color" => some (.string s.color)
  | "debug" => some (.bool s.debug)
  | _ => none

theorem eq_of_get? {s s' : Settings} (same : ∀ name, s.get? name = s'.get? name) : s = s' := by
  have width := same "width"
  have level := same "level"
  have color := same "color"
  have debug := same "debug"
  cases s
  cases s'
  simp only [get?, Option.some.injEq, Toml.Value.int.injEq, Toml.Value.string.injEq,
    Toml.Value.bool.injEq] at width level color debug
  rw [width, level, color, debug]

inductive Fits : String → Toml.Value → Prop
  | width (n : Int) : Fits "width" (.int n)
  | level (n : Int) : Fits "level" (.int n)
  | color (c : String) : Fits "color" (.string c)
  | debug (b : Bool) : Fits "debug" (.bool b)

theorem set_of_fits (s : Settings) {name : String} {v : Toml.Value} (fits : Fits name v) :
    ∃ s', s.set name v = some s' := by
  cases fits <;> exact ⟨_, rfl⟩

theorem fits_of_set {s s' : Settings} {name : String} {v : Toml.Value} (done : s.set name v = some s') :
    Fits name v := by
  unfold set at done
  split at done
  · exact .width _
  · exact .level _
  · exact .color _
  · exact .debug _
  · cases done

theorem get?_set {s s' : Settings} {name : String} {v : Toml.Value} (done : s.set name v = some s')
    (other : String) : s'.get? other = if other = name then some v else s.get? other := by
  cases fits_of_set done
  all_goals
    cases done
    unfold get?
    split <;> simp_all

theorem toLower_eq_iff {c l : Char} (small : l.isLower) :
    c.toLower = l ↔ c = l ∨ c = l.toUpper := by
  obtain ⟨above, below⟩ := Bool.and_eq_true_iff.mp small
  have bounds : 'a'.val ≤ l.val ∧ l.val ≤ 'z'.val :=
    ⟨of_decide_eq_true above, of_decide_eq_true below⟩
  have upper : l.toUpper.val = l.val + ('A'.val - 'a'.val) := by
    delta Char.toUpper
    rw [dif_pos bounds]
  have lower : c.toLower.val = if 65 ≤ c.val ∧ c.val ≤ 90 then c.val + 32 else c.val :=
    apply_dite Char.val _ _ _
  -- by their numbers, of which that of a small letter is 32 above that of the capital one
  rw [Char.ext_iff, Char.ext_iff, Char.ext_iff, upper, lower]
  split <;> grind

theorem map_toLower_eq_iff {key name : List Char} (small : name.all Char.isLower) :
    key.map Char.toLower = name ↔ List.Forall₂ (fun c l => c = l ∨ c = l.toUpper) key name := by
  induction name generalizing key with
  | nil => simp
  | cons l name ih =>
    obtain ⟨first, rest⟩ := Bool.and_eq_true_iff.mp small
    cases key with
    | nil => simp
    | cons c key =>
      rw [List.map_cons, List.cons.injEq, List.forall₂_cons, toLower_eq_iff first, ih rest]

/-- The key is the name of a setting, each letter small or capital. -/
structure Spells (key name : String) : Prop where
  setting : name ∈ ["width", "level", "color", "debug"]
  letters : List.Forall₂ (fun c l => c = l ∨ c = l.toUpper) key.toList name.toList

instance (key name : String) : Decidable (Spells key name) :=
  decidable_of_iff _ ⟨fun both => ⟨both.1, both.2⟩, fun spells => And.intro spells.1 spells.2⟩

theorem nameOf_eq_some_iff {key name : String} : nameOf key = some name ↔ Spells key name := by
  have small : ∀ name ∈ ["width", "level", "color", "debug"], name.toList.all Char.isLower := by
    decide
  constructor
  · intro named
    obtain ⟨known, same⟩ := Option.ite_none_right_eq_some.mp named
    have setting := List.contains_iff_mem.mp known
    cases same
    exact ⟨setting, (map_toLower_eq_iff (small _ setting)).mp String.toList_ofList.symm⟩
  · intro ⟨setting, letters⟩
    have same := (map_toLower_eq_iff (small name setting)).mpr letters
    simp [nameOf, same, setting]

/-- The value that a table gives a setting. Of two spellings of its name the later one counts. -/
def written (table : Toml.Table) (name : String) : Option Toml.Value :=
  ((table.filter fun entry => Spells entry.1 name).getLast?).map Prod.snd

theorem written_cons (key : String) (v : Toml.Value) (table : Toml.Table) (name : String) :
    written ((key, v) :: table) name =
      (written table name).or (if Spells key name then some v else none) := by
  unfold written
  by_cases spells : Spells key name
  · rw [List.filter_cons_of_pos (by simpa using spells), List.getLast?_cons, if_pos spells]
    cases (table.filter fun entry => Spells entry.1 name).getLast? <;> rfl
  · rw [List.filter_cons_of_neg (by simpa using spells), if_neg spells, Option.or_none]

def Kinds (table : Toml.Table) : Prop :=
  ∀ entry ∈ table, ∀ name, Spells entry.1 name → Fits name entry.2

theorem setAll_of_kinds {table : Toml.Table} (kinds : Kinds table) (s : Settings) :
    ∃ s', setAll s table = some s' := by
  induction table generalizing s with
  | nil => exact ⟨s, rfl⟩
  | cons entry table ih =>
    obtain ⟨first, rest⟩ := List.forall_mem_cons.mp kinds
    unfold setAll
    cases named : nameOf entry.1 with
    | none => exact ih rest s
    | some name =>
      obtain ⟨next, done⟩ := set_of_fits s (first name (nameOf_eq_some_iff.mp named))
      simp only [done]
      exact ih rest next

theorem setAll_eq_some {table : Toml.Table} {s s' : Settings} (done : setAll s table = some s') :
    Kinds table ∧ ∀ name, s'.get? name = (written table name).or (s.get? name) := by
  induction table generalizing s with
  | nil =>
    cases done
    exact ⟨by simp [Kinds], fun name => rfl⟩
  | cons entry table ih =>
    obtain ⟨key, v⟩ := entry
    unfold setAll at done
    cases named : nameOf key with
    | none =>
      rw [named] at done
      obtain ⟨kinds, values⟩ := ih done
      refine ⟨List.forall_mem_cons.mpr ⟨by simp [← nameOf_eq_some_iff, named], kinds⟩, ?_⟩
      intro name
      rw [values, written_cons]
      simp [← nameOf_eq_some_iff, named]
    | some known =>
      rw [named] at done
      obtain ⟨next, first, rest⟩ := Option.bind_eq_some_iff.mp done
      obtain ⟨kinds, values⟩ := ih rest
      refine ⟨List.forall_mem_cons.mpr ⟨?_, kinds⟩, fun name => ?_⟩
      · intro name spells
        cases named.symm.trans (nameOf_eq_some_iff.mpr spells)
        exact fits_of_set first
      · rw [values, get?_set first, written_cons, Option.or_assoc]
        congr 1
        by_cases same : name = known
        · simp [← nameOf_eq_some_iff, named, same]
        · simp [← nameOf_eq_some_iff, named, same, Ne.symm same]

def Known (key : Toml.Key) : Prop := ∃ part name, key = [part] ∧ Spells part name

theorem isKnown_iff (key : Toml.Key) : isKnown key = true ↔ Known key := by
  unfold isKnown Known
  simp only [← nameOf_eq_some_iff]
  split
  · simp [Option.isSome_iff_exists]
  · rename_i other
    constructor
    · intro known
      cases known
    · rintro ⟨part, name, same, -⟩
      exact absurd same (other part)

theorem find?_isKnown_eq_none_iff (keys : List Toml.Key) :
    keys.find? (!isKnown ·) = none ↔ ∀ key ∈ keys, Known key := by
  simp [isKnown_iff]

theorem ofText_eq_ok_iff {text : String} {s : Settings} :
    ofText text = .ok s ↔ ∃ d, Toml.Document.ofText? text = some d ∧ setAll {} d.root = some s ∧
      (∀ key ∈ d.keys, Known key) ∧ s.InRange := by
  unfold ofText
  cases Toml.Document.ofText? text with
  | none => simp
  | some d =>
    simp only [← find?_isKnown_eq_none_iff, Option.some.injEq, exists_eq_left']
    cases setAll {} d.root with
    | none => simp
    | some s' =>
      cases d.keys.find? (!isKnown ·) with
      | some key => simp
      | none =>
        simp only [mapError_eq_ok_iff, check_eq_ok_iff, Option.some.injEq, true_and]
        constructor
        · rintro ⟨inRange, rfl⟩
          exact ⟨rfl, inRange⟩
        · rintro ⟨rfl, inRange⟩
          exact ⟨inRange, rfl⟩

theorem load_eq_ok_iff {files : Files} {path : String} {s : Settings} :
    load files path = .ok s ↔ ∃ text, files path = .file text ∧ ofText text = .ok s := by
  unfold load Files.read
  cases files path with
  | nowhere e => simp
  | directory => simp
  | file text => simp

def marks (files : Files) (d : Dir) : Bool := files.has (d.join fileName) || files.has (d.join ".git")

def fileIn (files : Files) (d : Dir) : Option String :=
  if files.has (d.join fileName) then some (d.join fileName) else none

theorem bind_find?_marks_cons (files : Files) (d : Dir) (above : List Dir) :
    ((d :: above).find? (marks files)).bind (fileIn files) =
      if files.has (d.join fileName) then some (d.join fileName)
      else if files.has (d.join ".git") then none
      else (above.find? (marks files)).bind (fileIn files) := by
  rw [List.find?_cons, marks]
  cases here : files.has (d.join fileName) with
  | true => simp [fileIn, here]
  | false =>
    cases files.has (d.join ".git") with
    | true => simp [fileIn, here]
    | false => simp

theorem search_eq_find? (files : Files) (names : List String) :
    search files names = ((names.tails.map List.reverse).find? (marks files)).bind (fileIn files) := by
  induction names with
  | nil =>
    rw [List.tails, List.map_singleton, List.reverse_nil, bind_find?_marks_cons, search]
    simp
  | cons name above ih =>
    rw [List.tails_cons, List.map_cons, bind_find?_marks_cons, search, ih]

theorem nearest_eq_find? (files : Files) (cwd : Dir) :
    nearest files cwd = (cwd.inits.reverse.find? (marks files)).bind (fileIn files) := by
  rw [nearest, search_eq_find?, List.inits_eq_tails, List.reverse_reverse]

end LetPoly.Settings
