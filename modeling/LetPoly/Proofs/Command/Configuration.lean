import LetPoly.Command.Run
import LetPoly.Proofs.Settings

namespace LetPoly.Command

variable {w : World} {o : Options}

def Options.get? (o : Options) : String → Option Toml.Value
  | "width" => o.width.map .int
  | "level" => o.level.map .int
  | "color" => o.color.map .string
  | "debug" => o.debug.map .bool
  | _ => none

theorem get?_override (o : Options) (s : Settings) (name : String) :
    (override o s).get? name = (o.get? name).or (s.get? name) := by
  unfold override Options.get? Settings.get?
  split
  · cases o.width <;> rfl
  · cases o.level <;> rfl
  · cases o.color <;> rfl
  · cases o.debug <;> rfl
  · simp_all

/-- The directory is the first one, going up, in which the search ends. -/
structure EndsAt (w : World) (d : Dir) : Prop where
  marked : Settings.marks w.files d
  passed : ∃ below above, w.cwd.inits.reverse = below ++ d :: above ∧
    ∀ dir ∈ below, ¬ Settings.marks w.files dir

theorem endsAt_iff (w : World) (d : Dir) :
    EndsAt w d ↔ w.cwd.inits.reverse.find? (Settings.marks w.files) = some d := by
  rw [List.find?_eq_some_iff_append]
  constructor
  · intro ⟨marked, below, above, split, unmarked⟩
    exact ⟨marked, below, above, split, by simpa using unmarked⟩
  · intro ⟨marked, below, above, split, unmarked⟩
    exact ⟨marked, below, above, split, by simpa using unmarked⟩

inductive Uses (w : World) (o : Options) : Option String → Prop
  | named (given : o.config ≠ "") : Uses w o (some o.config)
  | found {d : Dir} (searched : o.config = "") (ends : EndsAt w d)
      (there : w.files.has (d.join Settings.fileName)) : Uses w o (some (d.join Settings.fileName))
  | bounded {d : Dir} (searched : o.config = "") (ends : EndsAt w d)
      (absent : ¬ w.files.has (d.join Settings.fileName)) : Uses w o none
  | nowhere (searched : o.config = "") (unmarked : ∀ d ∈ w.cwd.inits, ¬ Settings.marks w.files d) :
      Uses w o none

def usedFile (w : World) (o : Options) : Option String :=
  if o.config ≠ "" then some o.config else Settings.nearest w.files w.cwd

theorem usedFile_eq_find? (searched : o.config = "") :
    usedFile w o =
      (w.cwd.inits.reverse.find? (Settings.marks w.files)).bind (Settings.fileIn w.files) := by
  rw [usedFile, if_neg (not_not_intro searched), Settings.nearest_eq_find?]

theorem uses_usedFile (w : World) (o : Options) : Uses w o (usedFile w o) := by
  by_cases searched : o.config = ""
  · rw [usedFile_eq_find? searched]
    cases ends : w.cwd.inits.reverse.find? (Settings.marks w.files) with
    | none =>
      apply Uses.nowhere searched
      intro d member
      exact List.find?_eq_none.mp ends d (List.mem_reverse.mpr member)
    | some d =>
      rw [Option.bind_some, Settings.fileIn]
      split
      · rename_i there
        exact .found searched ((endsAt_iff w d).mpr ends) there
      · rename_i absent
        exact .bounded searched ((endsAt_iff w d).mpr ends) absent
  · rw [usedFile, if_pos searched]
    exact .named searched

theorem Uses.eq_usedFile {used : Option String} (uses : Uses w o used) : used = usedFile w o := by
  cases uses with
  | named given => rw [usedFile, if_pos given]
  | @found d searched ends there =>
    rw [usedFile_eq_find? searched, (endsAt_iff w d).mp ends, Option.bind_some, Settings.fileIn,
      if_pos there]
  | @bounded d searched ends absent =>
    rw [usedFile_eq_find? searched, (endsAt_iff w d).mp ends, Option.bind_some, Settings.fileIn,
      if_neg absent]
  | nowhere searched unmarked =>
    have none : w.cwd.inits.reverse.find? (Settings.marks w.files) = none := by
      apply List.find?_eq_none.mpr
      intro d member
      exact unmarked d (List.mem_reverse.mp member)
    rw [usedFile_eq_find? searched, none, Option.bind_none]

theorem Uses.unique {used used' : Option String} (uses : Uses w o used) (uses' : Uses w o used') :
    used = used' :=
  uses.eq_usedFile.trans uses'.eq_usedFile.symm

/-- What the file that is used says. Without a file nothing is said. -/
inductive Decoded (w : World) (o : Options) : Toml.Document → Prop
  | file {path text : String} {d : Toml.Document} (uses : Uses w o (some path))
      (read : w.files path = .file text) (decodes : Toml.Document.ofText? text = some d)
      (kinds : Settings.Kinds d.root) : Decoded w o d
  | none (uses : Uses w o none) : Decoded w o {}

theorem Decoded.of_uses {path : String} {d : Toml.Document} (decoded : Decoded w o d)
    (uses : Uses w o (some path)) : ∃ text, w.files path = .file text ∧
      Toml.Document.ofText? text = some d ∧ Settings.Kinds d.root := by
  cases decoded with
  | file uses' read decodes kinds =>
    cases uses.unique uses'
    exact ⟨_, read, decodes, kinds⟩
  | none uses' => cases uses.unique uses'

theorem Decoded.unique {d d' : Toml.Document} (decoded : Decoded w o d) (decoded' : Decoded w o d') :
    d = d' := by
  cases decoded with
  | file uses read decodes kinds =>
    obtain ⟨text, read', decodes', -⟩ := decoded'.of_uses uses
    cases read.symm.trans read'
    exact Option.some.inj (decodes.symm.trans decodes')
  | none uses =>
    cases decoded' with
    | file uses' read' decodes' kinds' => cases uses.unique uses'
    | none uses' => rfl

theorem Decoded.setAll {d : Toml.Document} (decoded : Decoded w o d) :
    ∃ own, Settings.setAll {} d.root = some own := by
  cases decoded with
  | file uses read decodes kinds => exact Settings.setAll_of_kinds kinds {}
  | none uses => exact ⟨{}, rfl⟩

/-- Every setting has the value of its option, or else that of the file, or else its default. -/
def Effective (o : Options) (table : Toml.Table) (s : Settings) : Prop :=
  ∀ name, s.get? name =
    ((o.get? name).or (Settings.written table name)).or (({} : Settings).get? name)

theorem Effective.unique {table : Toml.Table} {s s' : Settings} (effective : Effective o table s)
    (effective' : Effective o table s') : s = s' := by
  apply Settings.eq_of_get?
  intro name
  exact (effective name).trans (effective' name).symm

theorem effective_iff {table : Toml.Table} {own : Settings} (o : Options)
    (read : Settings.setAll {} table = some own) (s : Settings) :
    Effective o table s ↔ override o own = s := by
  have merged (name : String) : (override o own).get? name =
      ((o.get? name).or (Settings.written table name)).or (({} : Settings).get? name) := by
    rw [get?_override, (Settings.setAll_eq_some read).2, Option.or_assoc]
  constructor
  · intro effective
    exact Effective.unique merged effective
  · rintro rfl
    exact merged

theorem fileSettings_eq_ok_iff_load {own : Settings} :
    fileSettings w o = .ok own ↔ (usedFile w o = none ∧ own = {}) ∨
      ∃ path, usedFile w o = some path ∧ Settings.load w.files path = .ok own := by
  unfold fileSettings usedFile
  by_cases searched : o.config = ""
  · rw [if_neg (not_not_intro searched), if_neg (not_not_intro searched), Settings.find]
    cases Settings.nearest w.files w.cwd with
    | none => simp [eq_comm]
    | some path => cases loaded : Settings.load w.files path <;> simp [loaded]
  · rw [if_pos searched, if_pos searched, mapError_eq_ok_iff]
    simp

theorem fileSettings_eq_ok_iff {own : Settings} :
    fileSettings w o = .ok own ↔ ∃ d, Decoded w o d ∧ Settings.setAll {} d.root = some own ∧
      (∀ key ∈ d.keys, Settings.Known key) ∧ own.InRange := by
  rw [fileSettings_eq_ok_iff_load]
  have uses := uses_usedFile w o
  constructor
  · rintro (⟨unused, rfl⟩ | ⟨path, used, loaded⟩)
    · rw [unused] at uses
      exact ⟨{}, .none uses, rfl, by simp [Toml.Document.keys], by decide, by decide, by decide⟩
    · rw [used] at uses
      obtain ⟨text, read, accepted⟩ := Settings.load_eq_ok_iff.mp loaded
      obtain ⟨d, decodes, done, known, inRange⟩ := Settings.ofText_eq_ok_iff.mp accepted
      exact ⟨d, .file uses read decodes (Settings.setAll_eq_some done).1, done, known, inRange⟩
  · rintro ⟨d, decoded, done, known, inRange⟩
    cases decoded with
    | file uses' read decodes kinds =>
      apply Or.inr
      refine ⟨_, uses'.eq_usedFile.symm, Settings.load_eq_ok_iff.mpr ⟨_, read, ?_⟩⟩
      exact Settings.ofText_eq_ok_iff.mpr ⟨d, decodes, done, known, inRange⟩
    | none uses' =>
      cases done
      exact .inl ⟨uses'.eq_usedFile.symm, rfl⟩

theorem settings_eq_ok_iff {s : Settings} :
    settings w o = .ok s ↔ ∃ d, Decoded w o d ∧ (∀ key ∈ d.keys, Settings.Known key) ∧
      (∀ own, Effective {} d.root own → own.InRange) ∧ Effective o d.root s ∧ s.InRange := by
  unfold settings
  simp only [bind_eq_ok_iff, mapError_eq_ok_iff, Settings.check_eq_ok_iff, fileSettings_eq_ok_iff]
  constructor
  · rintro ⟨own, ⟨d, decoded, done, known, inRange⟩, merged, rfl⟩
    refine ⟨d, decoded, known, ?_, (effective_iff o done _).mpr rfl, merged⟩
    intro own' effective
    exact (effective_iff {} done own').mp effective ▸ inRange
  · rintro ⟨d, decoded, known, inRange, effective, merged⟩
    obtain ⟨own, done⟩ := decoded.setAll
    have same := (effective_iff o done s).mp effective
    refine ⟨own, ⟨d, decoded, done, known, ?_⟩, same ▸ merged, same⟩
    exact inRange own ((effective_iff {} done own).mpr rfl)

inductive Refused (w : World) (o : Options) : Prop
  | unreadable {path : String} (uses : Uses w o (some path))
      (unreadable : ∀ text, w.files path ≠ .file text)
  | undecodable {path text : String} (uses : Uses w o (some path)) (read : w.files path = .file text)
      (undecodable : ∀ d, Toml.Document.ofText? text = some d → ¬ Settings.Kinds d.root)
  | unknown {d : Toml.Document} {key : Toml.Key} (decoded : Decoded w o d) (written : key ∈ d.keys)
      (unknown : ¬ Settings.Known key)
  | ownOutOfRange {d : Toml.Document} {own : Settings} (decoded : Decoded w o d)
      (effective : Effective {} d.root own) (outOfRange : ¬ own.InRange)
  | outOfRange {d : Toml.Document} {s : Settings} (decoded : Decoded w o d)
      (effective : Effective o d.root s) (outOfRange : ¬ s.InRange)

theorem not_refused_of_ok {s : Settings} (done : settings w o = .ok s) : ¬ Refused w o := by
  obtain ⟨d, decoded, known, inRange, effective, merged⟩ := settings_eq_ok_iff.mp done
  intro refused
  cases refused with
  | unreadable uses unreadable =>
    obtain ⟨text, read, -, -⟩ := decoded.of_uses uses
    exact unreadable text read
  | undecodable uses read undecodable =>
    obtain ⟨text, read', decodes, kinds⟩ := decoded.of_uses uses
    cases read.symm.trans read'
    exact undecodable d decodes kinds
  | unknown decoded' written unknown =>
    cases decoded.unique decoded'
    exact unknown (known _ written)
  | ownOutOfRange decoded' effective' outOfRange =>
    -- the file is judged without the options, so one that overrides the value does not help
    cases decoded.unique decoded'
    exact outOfRange (inRange _ effective')
  | outOfRange decoded' effective' outOfRange =>
    cases decoded.unique decoded'
    cases effective.unique effective'
    exact outOfRange merged

theorem decoded_or_refused (w : World) (o : Options) : (∃ d, Decoded w o d) ∨ Refused w o := by
  have uses := uses_usedFile w o
  cases used : usedFile w o with
  | none =>
    rw [used] at uses
    exact .inl ⟨{}, .none uses⟩
  | some path =>
    rw [used] at uses
    by_cases readable : ∃ text, w.files path = .file text
    · obtain ⟨text, read⟩ := readable
      by_cases decodable : ∃ d, Toml.Document.ofText? text = some d ∧ Settings.Kinds d.root
      · obtain ⟨d, decodes, kinds⟩ := decodable
        exact .inl ⟨d, .file uses read decodes kinds⟩
      · exact .inr (.undecodable uses read fun d decodes kinds => decodable ⟨d, decodes, kinds⟩)
    · exact .inr (.unreadable uses fun text read => readable ⟨text, read⟩)

theorem settings_eq_ok_of_not_refused {d : Toml.Document} {s : Settings} (accepted : ¬ Refused w o)
    (decoded : Decoded w o d) (effective : Effective o d.root s) : settings w o = .ok s := by
  refine settings_eq_ok_iff.mpr ⟨d, decoded, ?_, ?_, effective, ?_⟩
  · intro key written
    by_contra unknown
    exact accepted (.unknown decoded written unknown)
  · intro own effective'
    by_contra outOfRange
    exact accepted (.ownOutOfRange decoded effective' outOfRange)
  · by_contra outOfRange
    exact accepted (.outOfRange decoded effective outOfRange)

theorem run_of_settings {args : List String} (parsed : Options.ofArgs args = .ok o)
    (help : o.help = false) (files : o.files ≠ []) :
    (∀ message, settings w o = .error message → run w args = fail message) ∧
      ∀ s exprs, settings w o = .ok s → o.files.mapM (loadExpr w) = .ok exprs →
        run w args = inferFiles w o s exprs := by
  unfold run
  constructor
  · intro message refused
    simp [parsed, help, files, refused]
  · intro s exprs done loaded
    simp [parsed, help, files, done, loaded]

/-- One settings file is used, the one that is named or else the nearest one, or none. Every setting
    has the value of its option, or else that of the file, or else its default. The settings are
    refused just if the file cannot be read or decoded, has an unknown key, or says something out of
    range, though an option may override it, or if what results is out of range. The command goes by
    these settings. -/
theorem settings_effective (w : World) (o : Options) :
    (∃! used, Uses w o used) ∧
      ((∃ message, settings w o = .error message) ↔ Refused w o) ∧
      (∀ s, settings w o = .ok s ↔ ¬ Refused w o ∧ ∃ d, Decoded w o d ∧ Effective o d.root s) ∧
      ∀ args, Options.ofArgs args = .ok o → o.help = false → o.files ≠ [] →
        (∀ message, settings w o = .error message → run w args = fail message) ∧
          ∀ s exprs, settings w o = .ok s → o.files.mapM (loadExpr w) = .ok exprs →
            run w args = inferFiles w o s exprs := by
  refine ⟨⟨usedFile w o, uses_usedFile w o, fun _ uses => uses.eq_usedFile⟩, ?_, ?_, ?_⟩
  · rw [exists_error_iff]
    constructor
    · intro fails
      by_contra accepted
      rcases decoded_or_refused w o with ⟨d, decoded⟩ | refused
      · obtain ⟨own, done⟩ := decoded.setAll
        have effective := (effective_iff o done (override o own)).mpr rfl
        exact fails _ (settings_eq_ok_of_not_refused accepted decoded effective)
      · exact accepted refused
    · intro refused s done
      exact not_refused_of_ok done refused
  · intro s
    constructor
    · intro done
      obtain ⟨d, decoded, -, -, effective, -⟩ := settings_eq_ok_iff.mp done
      exact ⟨not_refused_of_ok done, d, decoded, effective⟩
    · intro ⟨accepted, d, decoded, effective⟩
      exact settings_eq_ok_of_not_refused accepted decoded effective
  · intro args parsed help files
    exact run_of_settings parsed help files

/-- A settings file lies above the working directory, where the search ends, and one above that. -/
def nested : World where
  files := fun path =>
    if path = "/home/work/hindley.toml" then .file "Width = 40\nlevel = 0\n"
    else if path = "/home/hindley.toml" then .file "width = 0\n"
    else if path = "/home/work/.git" then .directory
    else .nowhere .missing
  complaints := ⟨id, id⟩
  cwd := ["home", "work", "deep"]

def nestedOptions : Options := { level := some 3, files := ["id.yaml"] }

theorem settings_effective_nested :
    Uses nested nestedOptions (some "/home/work/hindley.toml") ∧
      settings nested nestedOptions = .ok { width := 40, level := 3 } ∧
      ¬ Refused nested nestedOptions ∧
      (∃ d, Decoded nested nestedOptions d ∧
        Effective nestedOptions d.root { width := 40, level := 3 }) ∧
      (∃ d, Decoded nested {} d ∧ Effective {} d.root { width := 40, level := 0 }) ∧
      Refused nested { config := "/home/hindley.toml", width := some 20 } := by
  have done : settings nested nestedOptions = .ok { width := 40, level := 3 } := by decide +kernel
  have own : settings nested {} = .ok { width := 40, level := 0 } := by decide +kernel
  have used : usedFile nested nestedOptions = some "/home/work/hindley.toml" := by decide +kernel
  have refused : settings nested { config := "/home/hindley.toml", width := some 20 } =
      .error "/home/hindley.toml: width must be positive, got 0" := by
    decide +kernel
  obtain ⟨accepted, effective⟩ := ((settings_effective nested nestedOptions).2.2.1 _).mp done
  refine ⟨used ▸ uses_usedFile nested nestedOptions, done, accepted, effective, ?_, ?_⟩
  · exact (((settings_effective nested {}).2.2.1 _).mp own).2
  · exact (settings_effective nested _).2.1.mp ⟨_, refused⟩

end LetPoly.Command
