import LetPoly.Expr.Text
import LetPoly.Proofs.Batch.Copies
import LetPoly.Proofs.Inference.LevelIndependence
import LetPoly.Proofs.Inference.Straight
import LetPoly.Proofs.Printing.Tokens

namespace LetPoly

/-- A name that can be told from numbers, quoted texts, empty lists and the signs between forms. All
    identifiers are such names. -/
def IsName (name : String) : Prop :=
  (∃ c ∈ name.toList.head?, ¬ c.isDigit ∧ c ∉ ['-', '"', '[', '=', '\x7d']) ∧
    ∀ c ∈ name.toList, isWordChar c

instance (name : String) : Decidable (IsName name) := by
  refine decidable_of_iff
    (name.toList.head?.any (fun c => !c.isDigit && c ∉ ['-', '"', '[', '=', '\x7d']) = true ∧
      name.toList.all isWordChar = true) ?_
  simp only [IsName, Option.any_eq_true, List.all_eq_true, Option.mem_def, Bool.and_eq_true,
    Bool.not_eq_true', Bool.not_eq_true, decide_eq_true_eq]

theorem IsName.ne_nil {name : String} (proper : IsName name) : name.toList ≠ [] := by
  obtain ⟨⟨c, first, -⟩, -⟩ := proper
  intro empty
  simp [empty] at first

inductive Expr.Plain : Expr → Prop
  | int (pos : Pos) (value : Int) : Plain (.int pos value)
  | string (pos : Pos) (value : String) : Plain (.string pos value)
  | seq (pos : Pos) {first body : Expr} : first.Plain → body.Plain → Plain (.seq pos first body)
  | var (pos : Pos) {name : String} (scope : Scope) (type : Ty) :
    IsName name → Plain (.var pos name scope type)
  | fn (pos : Pos) {params : List Param} {body : Expr} (type : Ty) :
    (∀ param ∈ params, IsName param.name) → body.Plain → Plain (.fn pos params body type)
  | letIn (pos namePos : Pos) {name : String} {value body : Expr} (bound : Ty) :
    IsName name → value.Plain → body.Plain →
    Plain (.letIn pos (.var namePos name) value body bound)
  | nil (pos : Pos) (type : Ty) : Plain (.nil pos type)

namespace Reader

def skipQuoted : Bool → List Char → List Char
  | _, [] => []
  | true, _ :: cs => skipQuoted false cs
  | false, c :: cs => if c = '"' then cs else skipQuoted (c = '\\') cs

def param? : Token → Option Param
  | .word w => some { name := String.ofList w }
  | _ => none

def isNumeral (c : Char) : Bool := c.isDigit || c = '-'

def wordForm (w : List Char) : Expr :=
  if w.head?.any isNumeral then .int {} 0 else .var {} (String.ofList w) .unresolved .missing

def readForm (inner : List Char → Option (Expr × List Char)) (cs : List Char) :
    Option (Expr × List Char) :=
  let word := cs.takeWhile isWordChar
  let rest := cs.dropWhile isWordChar
  if cs.head? = some '"' then some (.string {} "", skipQuoted false cs.tail)
  else if cs.head? = some '[' then some (.nil {} .missing, cs.drop 2)
  else if rest.head? = some '(' then
    let params := (tokens (rest.tail.takeWhile (· ≠ ')'))).filterMap param?
    -- four characters lead from the parameters into the body, and two out of it
    let body := (rest.tail.dropWhile (· ≠ ')')).drop 4
    (inner body).map fun r => (.fn {} params r.1 .missing, r.2.drop 2)
  else some (wordForm word, rest)

def readValue (inner : List Char → Option (Expr × List Char)) (cs : List Char) :
    Option (Expr × List Char) :=
  if cs.head? = some '(' then (inner cs.tail).map fun r => (r.1, r.2.drop 1)
  else readForm inner cs

def afterEquals? : List Char → Option (List Char)
  | ' ' :: '=' :: ' ' :: cs => some cs
  | _ => none

def bound? (cs : List Char) : Option (List Char) :=
  if cs.head? = some '"' then none else afterEquals? (cs.dropWhile isWordChar)

def next? : List Char → Option (List Char)
  | ' ' :: c :: cs => if c = '\x7d' then none else some (c :: cs)
  | _ => none

def readLine : Nat → List Char → Option (Expr × List Char)
  | 0, _ => none
  | fuel + 1, cs =>
    match bound? cs with
    | some bound => do
      let (value, rest) ← readValue (readLine fuel) bound
      let (body, rest) ← readLine fuel (rest.drop 1)
      let name := String.ofList (cs.takeWhile isWordChar)
      some (.letIn {} (.var {} name) value body .missing, rest)
    | none => do
      let (form, rest) ← readForm (readLine fuel) cs
      match next? rest with
      | none => some (form, rest)
      | some cs => do
        let (body, rest) ← readLine fuel cs
        some (.seq {} form body, rest)

def Reads (read : (List Char → Option (Expr × List Char)) → List Char → Option (Expr × List Char))
    (cs : List Char) (e : Expr) (rest : List Char) : Prop :=
  ∃ fuel, ∀ n ≥ fuel, read (readLine n) cs = some (e, rest)

def ReadsLine (cs : List Char) (e : Expr) (rest : List Char) : Prop :=
  ∃ fuel, ∀ n ≥ fuel, readLine n cs = some (e, rest)

variable {cs rest final w : List Char} {e e' value body : Expr} {name : String}

theorem ReadsLine.unique (reads : ReadsLine cs e rest) (reads' : ReadsLine cs e' final) : e = e' := by
  obtain ⟨fuel, enough⟩ := reads
  obtain ⟨fuel', enough'⟩ := reads'
  have both := (enough (max fuel fuel') (Nat.le_max_left _ _)).symm.trans
    (enough' (max fuel fuel') (Nat.le_max_right _ _))
  exact congrArg Prod.fst (Option.some.inj both)

/-- What can stand behind a form: what closes the line, or the rest of the line after a blank. -/
inductive Tail : List Char → Option Expr → List Char → Prop
  | ends : Tail [] none []
  | parenthesis (rest : List Char) : Tail (')' :: rest) none (')' :: rest)
  | brace (rest : List Char) : Tail (' ' :: '\x7d' :: rest) none (' ' :: '\x7d' :: rest)
  | more {c : Char} {cs final : List Char} {later : Expr} (begins : c ≠ '=' ∧ c ≠ '\x7d')
    (reads : ReadsLine (c :: cs) later final) : Tail (' ' :: c :: cs) (some later) final

def stops : List Char → Bool
  | [] => true
  | c :: _ => c = ' ' || c = ')'

theorem startsWord_of_stops (ends : stops rest) : startsWord rest = false := by
  cases rest with
  | nil => rfl
  | cons c cs =>
    simp only [stops, Bool.or_eq_true, decide_eq_true_eq] at ends
    rcases ends with rfl | rfl <;> rfl

theorem takeWhile_word (each : ∀ c ∈ w, isWordChar c) (ends : startsWord rest = false) :
    (w ++ rest).takeWhile isWordChar = w := by
  rw [List.takeWhile_append_of_pos each]
  cases rest with
  | nil => simp
  | cons c cs => rw [List.takeWhile_cons_of_neg (by simpa [startsWord] using ends), List.append_nil]

theorem dropWhile_word (each : ∀ c ∈ w, isWordChar c) (ends : startsWord rest = false) :
    (w ++ rest).dropWhile isWordChar = rest := by
  rw [List.dropWhile_append_of_pos each]
  cases rest with
  | nil => rfl
  | cons c cs => exact List.dropWhile_cons_of_neg (by simpa [startsWord] using ends)

namespace Tail

variable {tail : Option Expr}

theorem stops (behind : Tail rest tail final) : stops rest := by
  cases behind <;> rfl

theorem not_bound (behind : Tail rest tail final) : afterEquals? rest = none := by
  cases behind with
  | more begins reads => simp [afterEquals?, begins.1]
  | _ => rfl

theorem reads_line (behind : Tail rest tail final) (form : Reads readForm cs e rest)
    (single : bound? cs = none) : ReadsLine cs (e.before tail) final := by
  obtain ⟨fuel, enough⟩ := form
  cases behind with
  | more begins reads =>
    obtain ⟨fuel', enough'⟩ := reads
    refine ⟨max fuel fuel' + 1, fun n le => ?_⟩
    obtain ⟨n, rfl⟩ : ∃ m, n = m + 1 := ⟨n - 1, by omega⟩
    simp [readLine, single, enough n (by omega), next?, begins.2, enough' n (by omega), Expr.before]
  | _ =>
    refine ⟨fuel + 1, fun n le => ?_⟩
    obtain ⟨n, rfl⟩ : ∃ m, n = m + 1 := ⟨n - 1, by omega⟩
    simp [readLine, single, enough n (by omega), next?, Expr.before]

end Tail

structure Form (cs : List Char) (e : Expr) : Prop where
  reads : ∀ {rest}, stops rest → Reads readForm (cs ++ rest) e rest
  single : ∀ {rest}, stops rest → afterEquals? rest = none → bound? (cs ++ rest) = none
  begins : ∃ c ∈ cs.head?, c ∉ ['=', '\x7d', '(']

theorem form_word {c : Char} (begins : c ∉ ['"', '[', '=', '\x7d'])
    (each : ∀ d ∈ c :: w, isWordChar d) : Form (c :: w) (wordForm (c :: w)) := by
  simp only [List.mem_cons, List.not_mem_nil, or_false, not_or] at begins
  obtain ⟨quote, bracket, equals, brace⟩ := begins
  refine ⟨fun {rest} ends => ⟨0, fun n _ => ?_⟩, fun {rest} ends unbound => ?_, ⟨c, rfl, ?_⟩⟩
  · have word := startsWord_of_stops ends
    have closed : rest.head? ≠ some '(' := by
      cases rest with
      | nil => simp
      | cons d cs =>
        rintro ⟨⟩
        cases ends
    simp only [readForm, takeWhile_word each word, dropWhile_word each word, if_neg closed]
    simp [quote, bracket]
  · rw [bound?, dropWhile_word each (startsWord_of_stops ends), unbound, ite_self]
  · have opening : c ≠ '(' := by
      rintro rfl
      exact absurd (each '(' List.mem_cons_self) (by decide)
    simp [equals, brace, opening]

theorem form_name (proper : IsName name) : Form name.toList (.var {} name .unresolved .missing) := by
  obtain ⟨⟨c, first, digit, begins⟩, each⟩ := proper
  obtain ⟨w, text⟩ : ∃ w, name.toList = c :: w := List.head?_eq_some_iff.mp first
  simp only [List.mem_cons, List.not_mem_nil, or_false, not_or] at begins
  have reference : wordForm (c :: w) = .var {} name .unresolved .missing := by
    rw [wordForm, if_neg (by simpa [isNumeral, begins.1] using digit), ← text, String.ofList_toList]
  rw [← reference, text]
  exact form_word (by simp [begins]) (text ▸ each)

theorem digits_numeral (n : Nat) :
    (toString n).toList ≠ [] ∧ ∀ c ∈ (toString n).toList, isNumeral c := by
  have digits : (toString n).toList = Nat.toDigits 10 n := String.toList_ofList
  rw [digits]
  refine ⟨Nat.toDigits_ne_nil, fun c member => ?_⟩
  rw [isNumeral, Nat.isDigit_of_mem_toDigits (by decide) (by decide) member, Bool.true_or]

theorem toString_numeral (value : Int) :
    (toString value).toList ≠ [] ∧ ∀ c ∈ (toString value).toList, isNumeral c := by
  cases value with
  | ofNat n => exact digits_numeral n
  | negSucc n =>
    have text : (toString (Int.negSucc n)).toList = '-' :: (toString (n + 1)).toList :=
      String.toList_append
    rw [text]
    exact ⟨by simp, List.forall_mem_cons.mpr ⟨rfl, (digits_numeral (n + 1)).2⟩⟩

theorem isWordChar_of_isNumeral {c : Char} (numeral : isNumeral c) : isWordChar c := by
  simp only [isNumeral, Bool.or_eq_true, decide_eq_true_eq] at numeral
  rcases numeral with digit | rfl
  · simp only [Char.isDigit, Bool.and_eq_true, decide_eq_true_eq] at digit
    exact isWordChar_of_le digit.1
  · rfl

theorem form_int (value : Int) : Form (toString value).toList (.int {} 0) := by
  obtain ⟨some, each⟩ := toString_numeral value
  obtain ⟨c, w, text⟩ := List.exists_cons_of_ne_nil some
  rw [text] at each ⊢
  have first : isNumeral c := each c List.mem_cons_self
  have number : wordForm (c :: w) = .int {} 0 := by rw [wordForm, if_pos (by simpa using first)]
  rw [← number]
  refine form_word (fun mark => ?_) fun d member => isWordChar_of_isNumeral (each d member)
  -- none of the other marks is a digit or a sign
  simp only [List.mem_cons, List.not_mem_nil, or_false] at mark
  rcases mark with rfl | rfl | rfl | rfl <;> exact absurd first (by decide)

theorem skipQuoted_plain {ds : List Char} (each : ∀ d ∈ ds, d ≠ '"' ∧ d ≠ '\\') (cs : List Char) :
    skipQuoted false (ds ++ cs) = skipQuoted false cs := by
  induction ds with
  | nil => rfl
  | cons d ds ih =>
    obtain ⟨⟨quote, backslash⟩, later⟩ := List.forall_mem_cons.mp each
    simp only [List.cons_append, skipQuoted, if_neg quote, decide_eq_false backslash, ih later]

theorem hexDigits_plain (count n : Nat) : ∀ d ∈ Text.hexDigits count n, d ≠ '"' ∧ d ≠ '\\' := by
  intro d member
  obtain ⟨place, -, rfl⟩ := List.mem_map.mp member
  have plain : ∀ m < 16, Nat.digitChar m ≠ '"' ∧ Nat.digitChar m ≠ '\\' := by decide
  exact plain _ (Nat.mod_lt _ (by decide))

theorem escapeHidden_eq (c : Char) : ∃ letter ds, Text.escapeHidden c = '\\' :: letter :: ds ∧
    ∀ d ∈ ds, d ≠ '"' ∧ d ≠ '\\' := by
  unfold Text.escapeHidden
  split
  case h_8 =>
    split
    · exact ⟨_, _, rfl, hexDigits_plain 2 _⟩
    · split
      · exact ⟨_, _, rfl, hexDigits_plain 4 _⟩
      · exact ⟨_, _, rfl, hexDigits_plain 8 _⟩
  all_goals exact ⟨_, [], rfl, by simp⟩

theorem skipQuoted_escapeChar (c : Char) (cs : List Char) :
    skipQuoted false (Text.escapeChar '"' c ++ cs) = skipQuoted false cs := by
  unfold Text.escapeChar
  split
  · rfl
  · rename_i ordinary
    simp only [Bool.or_eq_true, decide_eq_true_eq, not_or] at ordinary
    split
    · exact skipQuoted_plain (by simpa using ordinary) cs
    · obtain ⟨letter, ds, shown, plain⟩ := escapeHidden_eq c
      rw [shown]
      exact skipQuoted_plain plain cs

theorem skipQuoted_quote (s : List Char) (rest : List Char) :
    skipQuoted false (s.flatMap (Text.escapeChar '"') ++ '"' :: rest) = rest := by
  induction s with
  | nil => rfl
  | cons c s ih => rw [List.flatMap_cons, List.append_assoc, skipQuoted_escapeChar, ih]

theorem form_string (value : String) : Form (Text.quote value).toList (.string {} "") := by
  rw [Text.quote, String.toList_ofList]
  refine ⟨fun {rest} _ => ⟨0, fun n _ => ?_⟩, fun _ _ => rfl, ⟨'"', rfl, by decide⟩⟩
  have closed := skipQuoted_quote value.toList rest
  simp [readForm, closed]

theorem form_nil : Form "[]".toList (.nil {} .missing) := by
  refine ⟨fun _ => ⟨0, fun n _ => rfl⟩, fun {rest} ends unbound => ?_, ⟨'[', rfl, by decide⟩⟩
  have each : ∀ c ∈ "[]".toList, isWordChar c := by simp [isWordChar, isBlank]
  rw [bound?, dropWhile_word each (startsWord_of_stops ends), unbound, ite_self]

theorem tokens_names {names : List String} (proper : ∀ name ∈ names, IsName name) :
    tokens (", ".intercalate names).toList = names.map fun name => .word name.toList := by
  induction names with
  | nil => rfl
  | cons name names ih =>
    obtain ⟨first, later⟩ := List.forall_mem_cons.mp proper
    have some : name.toList ≠ [] := first.ne_nil
    cases names with
    | nil =>
      have last : tokens (name.toList ++ []) = .word name.toList :: tokens [] :=
        tokens_word some first.2 rfl
      simpa [tokens] using last
    | cons other names =>
      rw [String.intercalate_cons_cons, String.toList_append, String.toList_append, List.append_assoc,
        tokens_word some first.2 rfl, List.map_cons, ← ih later]
      rfl

theorem names_open {names : List String} (proper : ∀ name ∈ names, IsName name) :
    ∀ c ∈ (", ".intercalate names).toList, c ≠ ')' := by
  have word {name : String} (proper : IsName name) : ∀ c ∈ name.toList, c ≠ ')' := by
    rintro c member rfl
    exact absurd (proper.2 ')' member) (by decide)
  induction names with
  | nil => simp
  | cons name names ih =>
    obtain ⟨first, later⟩ := List.forall_mem_cons.mp proper
    cases names with
    | nil => simpa using word first
    | cons other names =>
      intro c member
      rw [String.intercalate_cons_cons, String.toList_append, String.toList_append] at member
      simp only [List.mem_append] at member
      rcases member with (inName | comma) | inRest
      · exact word first c inName
      · rintro rfl
        exact absurd comma (by decide)
      · exact ih later c inRest

theorem form_fn {params : List Param} (proper : ∀ param ∈ params, IsName param.name)
    (inner : ∀ rest, ReadsLine (cs ++ ' ' :: '\x7d' :: rest) body (' ' :: '\x7d' :: rest)) :
    Form ("fn(".toList ++ (", ".intercalate (params.map Param.name)).toList ++ ") \x7b ".toList ++
      cs ++ " \x7d".toList)
      (.fn {} (params.map fun param => { name := param.name }) body .missing) := by
  have names : ∀ name ∈ params.map Param.name, IsName name := by simpa using proper
  generalize listed : (", ".intercalate (params.map Param.name)).toList = block
  have open' : ∀ c ∈ block, decide (c ≠ ')') = true := by
    simpa [listed] using names_open names
  have read : (tokens block).filterMap param? = params.map fun param => { name := param.name } := by
    rw [← listed, tokens_names names]
    simp [param?, Function.comp_def, List.filterMap_map]
  have text (rest : List Char) :
      "fn(".toList ++ block ++ ") \x7b ".toList ++ cs ++ " \x7d".toList ++ rest = "fn".toList ++
        '(' :: (block ++ ')' :: ' ' :: '\x7b' :: ' ' :: (cs ++ ' ' :: '\x7d' :: rest)) := by
    simp
  have word (more : List Char) : ("fn".toList ++ '(' :: more).dropWhile isWordChar = '(' :: more :=
    dropWhile_word (by simp [isWordChar, isBlank]) rfl
  refine ⟨fun {rest} _ => ?_, fun {rest} _ _ => ?_, ⟨'f', rfl, by decide⟩⟩
  · obtain ⟨fuel, enough⟩ := inner rest
    refine ⟨fuel, fun n le => ?_⟩
    rw [text]
    simp only [readForm, word, List.head?_cons, List.tail_cons,
      List.takeWhile_append_of_pos open', List.dropWhile_append_of_pos open']
    simp [enough n le, read]
  · rw [text, bound?, word]
    rfl

/-- The text of an expression is read back as its straight line. -/
structure Legible (e : Expr) : Prop where
  line : ∀ {rest tail final}, Tail rest tail final →
    ReadsLine ((e.textIn false).toList ++ rest) (e.straighten tail) final
  value : ∀ {rest}, stops rest →
    Reads readValue ((e.textIn true).toList ++ rest) (e.straighten none) rest
  begins : ∃ c ∈ (e.textIn false).toList.head?, c ≠ '=' ∧ c ≠ '\x7d'

theorem Form.legible {form : Expr} (reads : Form cs form)
    (text : ∀ simple, (e.textIn simple).toList = cs)
    (straight : ∀ tail, e.straighten tail = form.before tail) : Legible e := by
  obtain ⟨c, first, begins⟩ := reads.begins
  simp only [List.mem_cons, List.not_mem_nil, or_false, not_or] at begins
  obtain ⟨equals, brace, opening⟩ := begins
  refine ⟨fun behind => ?_, fun {rest} ends => ?_, ⟨c, (text false).symm ▸ first, equals, brace⟩⟩
  · rw [text, straight]
    exact behind.reads_line (reads.reads behind.stops) (reads.single behind.stops behind.not_bound)
  · obtain ⟨fuel, enough⟩ := reads.reads ends
    refine ⟨fuel, fun n le => ?_⟩
    have closed : (cs ++ rest).head? ≠ some '(' := by
      rw [List.head?_append, first]
      simpa using opening
    rw [text, straight, readValue, if_neg closed]
    exact enough n le

theorem legible_of_line (line : ∀ {rest tail final}, Tail rest tail final →
      ReadsLine ((e.textIn false).toList ++ rest) (e.straighten tail) final)
    (begins : ∃ c ∈ (e.textIn false).toList.head?, c ≠ '=' ∧ c ≠ '\x7d')
    (text : e.textIn true = "(" ++ e.textIn false ++ ")") : Legible e := by
  refine ⟨line, fun {rest} _ => ?_, begins⟩
  obtain ⟨fuel, enough⟩ := line (.parenthesis rest)
  refine ⟨fuel, fun n le => ?_⟩
  simp [text, readValue, enough n le]

theorem Legible.seq {first : Expr} (ofFirst : Legible first) (ofBody : Legible body) (pos : Pos) :
    Legible (.seq pos first body) := by
  have text : ((Expr.seq pos first body).textIn false).toList =
      (first.textIn false).toList ++ ' ' :: (body.textIn false).toList := by
    simp [Expr.textIn, Expr.parens]
  refine legible_of_line (fun {rest tail final} behind => ?_) ?_ rfl
  · obtain ⟨c, first', begins⟩ := ofBody.begins
    obtain ⟨cs, later⟩ := List.head?_eq_some_iff.mp first'
    have reads := ofBody.line behind
    rw [later] at reads
    rw [text, later, List.append_assoc, Expr.straighten]
    exact ofFirst.line (.more begins reads)
  · obtain ⟨c, first', begins⟩ := ofFirst.begins
    exact ⟨c, by rw [text, List.head?_append, first', Option.some_or]; rfl, begins⟩

theorem ReadsLine.letIn {more : List Char} (proper : IsName name)
    (ofValue : Reads readValue (cs ++ ' ' :: more) value (' ' :: more))
    (ofBody : ReadsLine more body final) :
    ReadsLine (name.toList ++ ' ' :: '=' :: ' ' :: (cs ++ ' ' :: more))
      (.letIn {} (.var {} name) value body .missing) final := by
  obtain ⟨fuel, enough⟩ := ofValue
  obtain ⟨fuel', enough'⟩ := ofBody
  refine ⟨max fuel fuel' + 1, fun n le => ?_⟩
  obtain ⟨n, rfl⟩ : ∃ m, n = m + 1 := ⟨n - 1, by omega⟩
  obtain ⟨⟨c, first, -, marks⟩, each⟩ := proper
  have unquoted : (name.toList ++ ' ' :: '=' :: ' ' :: (cs ++ ' ' :: more)).head? ≠ some '"' := by
    rw [List.head?_append, first]
    rintro ⟨⟩
    simp at marks
  have bound : bound? (name.toList ++ ' ' :: '=' :: ' ' :: (cs ++ ' ' :: more)) =
      some (cs ++ ' ' :: more) := by
    rw [bound?, if_neg unquoted, dropWhile_word each rfl]
    rfl
  simp [readLine, bound, takeWhile_word each, startsWord, isWordChar, isBlank, enough n (by omega),
    enough' n (by omega)]

theorem Legible.letIn (proper : IsName name) (ofValue : Legible value) (ofBody : Legible body)
    (pos namePos : Pos) (bound : Ty) : Legible (.letIn pos (.var namePos name) value body bound) := by
  have text : ((Expr.letIn pos (.var namePos name) value body bound).textIn false).toList =
      name.toList ++ ' ' :: '=' :: ' ' ::
        ((value.textIn true).toList ++ ' ' :: (body.textIn false).toList) := by
    simp [Expr.textIn, Expr.parens, Pattern.toText]
  refine legible_of_line (fun {rest tail final} behind => ?_) ?_ rfl
  · have reads := ReadsLine.letIn proper (ofValue.value rfl) (ofBody.line behind)
    simpa [text, Expr.straighten] using reads
  · obtain ⟨c, first, -, marks⟩ := proper.1
    simp only [List.mem_cons, List.not_mem_nil, or_false, not_or] at marks
    exact ⟨c, by rw [text, List.head?_append, first, Option.some_or]; rfl, marks.2.2.2⟩

theorem legible_of_plain (plain : e.Plain) : Legible e := by
  induction plain with
  | int pos value => exact (form_int value).legible (fun _ => rfl) fun _ => rfl
  | string pos value => exact (form_string value).legible (fun _ => rfl) fun _ => rfl
  | seq pos _ _ ofFirst ofBody => exact ofFirst.seq ofBody pos
  | var pos scope type proper => exact (form_name proper).legible (fun _ => rfl) fun _ => rfl
  | fn pos type proper _ ofBody =>
    refine (form_fn proper fun rest => ofBody.line (.brace rest)).legible (fun _ => ?_) fun _ => rfl
    simp [Expr.textIn]
  | letIn pos namePos bound proper _ _ ofValue ofBody =>
    exact Legible.letIn proper ofValue ofBody pos namePos bound
  | nil pos type => exact form_nil.legible (fun _ => rfl) fun _ => rfl

end Reader

inductive Gist
  | typed (text : String)
  | failed
  | fault
deriving DecidableEq

def Verdict.gist : Verdict → Gist
  | .typed text => .typed text
  | .unknownVariable _ _ _ | .notImplemented _ _ | .incomplete _ => .failed
  | .fault => .fault

def Gist.ofSettled : Except (Option Fault) (Ty × Supply) → Gist
  | .error none => .failed
  | .error (some _) => .fault
  | .ok (t, q) => .typed (q.store.typeString t)

namespace Expr

variable {e e' : Expr}

theorem gist_eq_ofSettled (present : e.isMissing = false) (level : Int) (env : Bindings)
    (p : Supply) : (e.inferTop level env p).verdict.gist = .ofSettled (e.settle level env p) := by
  have run := inferTop_present present level env p
  rcases infer_cases e level env p with ⟨stop, q, stopped⟩ | ⟨typed, t, q, done, type⟩
  · rw [stopped] at run
    obtain ⟨result, -⟩ := Prod.mk.inj run
    rw [settle_of_error stopped, Inferred.verdict, result]
    cases stop with
    | failed error invalid => cases error <;> rfl
    | fault f => rfl
  · rw [done] at run
    obtain ⟨result, supply⟩ := Prod.mk.inj run
    simp only [settle_of_ok done type, Inferred.verdict, result, supply, type, Verdict.gist,
      Gist.ofSettled]

theorem Plain.present (plain : e.Plain) : e.isMissing = false := by
  cases plain <;> rfl

theorem straighten_eq_of_toText (plain : e.Plain) (plain' : e'.Plain) (same : e.toText = e'.toText) :
    e.straighten none = e'.straighten none := by
  have reads := (Reader.legible_of_plain plain).line .ends
  have reads' := (Reader.legible_of_plain plain').line .ends
  simp only [toText] at same
  rw [← same] at reads'
  exact reads.unique reads'

/-- A text means one thing, as long as no form of a line takes a name that is bound within what is
    in front of it. -/
theorem gist_eq_of_toText (plain : e.Plain) (plain' : e'.Plain) (separate : e.Separate)
    (separate' : e'.Separate) (same : e.toText = e'.toText) (level : Int) (env : Bindings)
    (p : Supply) :
    (e.inferTop level env p).verdict.gist = (e'.inferTop level env p).verdict.gist := by
  have settled : e.settle level env p = e'.settle level env p := by
    calc e.settle level env p
      _ = (e.straighten none).settle level env p := (settle_straighten_none separate).symm
      _ = (e'.straighten none).settle level env p := by
        rw [straighten_eq_of_toText plain plain' same]
      _ = e'.settle level env p := settle_straighten_none separate'
  rw [gist_eq_ofSettled plain.present, gist_eq_ofSettled plain'.present, settled]

def boundThen (under : Bool) (rest : Expr) : Expr :=
  if under then .letIn {} (.var {} "x") (.int {} 1) (.seq {} (.int {} 2) rest) .missing
  else .seq {} (.letIn {} (.var {} "x") (.int {} 1) (.int {} 2) .missing) rest

theorem boundThen_plain (under : Bool) {rest : Expr} (plain : rest.Plain) :
    (boundThen under rest).Plain := by
  have named : IsName "x" := by decide
  cases under with
  | true => exact .letIn _ _ _ named (.int _ _) (.seq _ (.int _ _) plain)
  | false => exact .seq _ (.letIn _ _ _ named (.int _ _) (.int _ _)) plain

theorem gist_eq_of_toText_rebound :
    (boundThen false identityFn).toText = "x = 1 2 fn(x) \x7b x \x7d" ∧
      ((boundThen false identityFn).inferTop 0 {} {}).verdict.gist = .typed "fn(a) -> a" ∧
      ((boundThen true identityFn).inferTop 0 {} {}).verdict.gist = .typed "fn(a) -> a" := by
  have plain : identityFn.Plain := .fn _ _ (by decide) (.var _ _ _ (by decide))
  have under : ((boundThen true identityFn).inferTop 0 {} {}).verdict.gist = .typed "fn(a) -> a" := by
    decide +kernel
  have separate (under : Bool) : (boundThen under identityFn).Separate := by
    cases under <;> simp [boundThen, identityFn, Separate, lineNames, freeNames]
  have same := gist_eq_of_toText (boundThen_plain false plain) (boundThen_plain true plain)
    (separate false) (separate true) rfl 0 {} {}
  exact ⟨by decide +kernel, same.trans under, under⟩

/-- What stands in front of a name is not put in parentheses, so the text does not tell whether the
    name is under the binding or after it. -/
theorem toText_ambiguous :
    let name : Expr := .var {} "x" .unresolved .missing
    let around : Bindings := ({} : Bindings).insert "x" .string
    (boundThen false name).Plain ∧ (boundThen true name).Plain ∧
    (boundThen false name).toText = (boundThen true name).toText ∧
    ((boundThen false name).inferTop 0 {} {}).verdict.gist = .failed ∧
    ((boundThen true name).inferTop 0 {} {}).verdict.gist = .typed "Int" ∧
    ((boundThen false name).inferTop 0 around {}).verdict.gist = .typed "String" ∧
    ((boundThen true name).inferTop 0 around {}).verdict.gist = .typed "Int" := by
  have plain : Plain (.var {} "x" .unresolved .missing) := .var _ _ _ (by decide)
  refine ⟨boundThen_plain false plain, boundThen_plain true plain, rfl, ?_⟩
  decide +kernel

end Expr

end LetPoly
