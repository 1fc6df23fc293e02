import LetPoly.Proofs.Batch.Exhaustion
import LetPoly.Proofs.Command.Files
import LetPoly.Proofs.Decoding.Safety
import LetPoly.Proofs.Printing.Unambiguous
import LetPoly.Proofs.Settings

namespace LetPoly

namespace Command

def nodeLabel (node : Expr) : String := s!"  {node.pos.toText} {node.form}"

end Command

theorem Store.length_showAll (s : Store) (width : Int) (ts : List Ty) :
    (s.showAll width ts).length = ts.length := by
  have run : ∀ names, (ts.mapM (m := StateM VarNames) (s.showType width) names).1.length = ts.length := by
    induction ts with
    | nil => exact fun _ => rfl
    | cons t ts ih =>
      intro names
      rw [mapM_showType_cons, List.length_cons, List.length_cons, ih]
  exact run {}

theorem Expr.infer_of_inferTop {e typed : Expr} {level : Int} {env : Bindings} {p : Supply}
    (done : (e.inferTop level env p).result = .ok typed) :
    e.infer level env p = (.ok typed, (e.inferTop level env p).supply) := by
  have present : e.isMissing = false := by
    cases e with
    | missing => cases done
    | _ => rfl
  rw [← inferTop_present present, done]

theorem Expr.self_mem_nodes_of_infer {e typed : Expr} {level : Int} {env : Bindings} {p q : Supply}
    (ok : e.infer level env p = (.ok typed, q)) : typed ∈ typed.nodes := by
  have same := (infer_erase ok).1
  cases typed with
  | missing =>
    cases e with
    | missing => cases ok
    | _ => cases same
  | _ => simp [nodes]

theorem Expr.infer_labels {e typed : Expr} {level : Int} {env : Bindings} {p q : Supply}
    (ok : e.infer level env p = (.ok typed, q)) :
    typed.nodes.map Command.nodeLabel = e.nodes.map Command.nodeLabel := by
  induction e using Expr.inferInduction generalizing level env p q typed with
  | literal e name literal =>
    rw [infer_literal literal] at ok
    cases ok
    rfl
  | refused e refused =>
    obtain ⟨error, invalid, run⟩ := refused
    rw [run] at ok
    cases ok
  | seq pos first body ihFirst ihBody =>
    obtain ⟨first', p', body', done, done', rfl⟩ := infer_seq_ok ok
    simp only [nodes, List.map_cons, List.map_append, ihFirst done, ihBody done']
    rfl
  | var pos name scope type =>
    obtain ⟨scheme, type', found, run, rfl⟩ := infer_var_ok ok
    rfl
  | fn pos params body type ih =>
    obtain ⟨body', result, done, type, rfl⟩ := infer_fn_ok ok
    simp only [nodes, List.map_cons, ih done]
    rfl
  | letIn pos namePos name value body bound ihValue ihBody =>
    obtain ⟨value', p', t, body', done, type, done', rfl⟩ := infer_letIn_ok ok
    simp only [nodes, List.map_cons, List.map_append, ihValue done, ihBody done']
    rfl
  | nil pos type =>
    cases ok
    rfl

namespace Command

variable {w : World} {o : Options} {args : List String} {settings : Settings} {style : Style}
  {s : Store} {e typed : Expr} {path message : String} {annotate : Bool} {exprs : List Expr}

def listed (annotate : Bool) (e : Expr) : List Expr := e :: if annotate then e.nodes else []

def labels (annotate : Bool) (path : String) (e : Expr) : List String :=
  path :: if annotate then e.nodes.map nodeLabel else []

def entry (style : Style) (label text : String) : String := label ++ ": " ++ style.paint text ++ "\n"

/-- The entries for a file, by the inference of its expression alone: the types of its tree, each behind
    its label, with one table of names for all of them. -/
def Entries (style : Style) (annotate : Bool) (level : Int) (path : String) (e : Expr)
    (entries : List String) : Prop :=
  let r := e.inferTop level {} {}
  ∃ typed types, r.result = .ok typed ∧ typed.erase = e.erase ∧
    List.Forall₂ (fun node t => node.typeIn r.supply.store = .ok t) (listed annotate typed) types ∧
    entries = List.zipWith (entry style) (labels annotate path e)
      (r.supply.store.showAll style.width types) ∧
    entries.length = (labels annotate path e).length

/-- A run of the command on files, with good settings. No file is longer than a text can be, and there
    are ranges of numbers for all of them. -/
structure Ready (w : World) (args : List String) (o : Options) (settings : Settings) : Prop where
  parsed : Options.ofArgs args = .ok o
  asked : o.help = false
  plain : o.dump = false
  given : o.files ≠ []
  going : w.cancelled = false
  good : Command.settings w o = .ok settings
  word : IsWord settings.level
  sized : ∀ path ∈ o.files, ∀ text, w.files path = .file text → text.length < wordLimit
  room : o.files.length * batchIdRange < wordLimit
  few : ∀ path ∈ o.files, ∀ e, loadExpr w path = .ok e →
    (e.drawn settings.level {} {}).length ≤ batchIdRange

theorem level_nonneg (good : Command.settings w o = .ok settings) : 0 ≤ settings.level := by
  obtain ⟨file, -, checked⟩ := bind_eq_ok_iff.mp good
  obtain ⟨inRange, rfl⟩ := Settings.check_eq_ok_iff.mp (mapError_eq_ok_iff.mp checked)
  exact inRange.level

theorem loadExpr_eq_ok (loads : loadExpr w path = .ok e) :
    ∃ text, w.files path = .file text ∧ Expr.ofText text = .ok e := by
  simp only [loadExpr, Files.read] at loads
  cases found : w.files path with
  | nowhere error =>
    rw [found] at loads
    cases loads
  | directory =>
    rw [found] at loads
    cases loads
  | file text =>
    rw [found] at loads
    exact ⟨text, rfl, mapError_eq_ok_iff.mp loads⟩

namespace Ready

theorem safe (ready : Ready w args o settings) (member : path ∈ o.files)
    (loads : loadExpr w path = .ok e) :
    let r := e.inferTop settings.level {} {}
    (∃ typed, r.result = .ok typed ∧ typed.erase = e.erase ∧ ∀ node ∈ typed.nodes,
      ∃ t, node.typeIn r.supply.store = .ok t ∧ r.supply.store.Complete t) ∨
    ∃ error invalid, r.result = .error (.failed error invalid) ∧ error.Reported := by
  obtain ⟨text, found, read⟩ := loadExpr_eq_ok loads
  obtain ⟨n, -, decoded⟩ := Expr.ofText_eq_ok_iff.mp read
  have fits := ready.sized path member text found
  apply Expr.infer_safe {} (Expr.whole_of_ofNodeWithin decoded)
  exact Expr.unlinked_of_ofText fits read (level_nonneg ready.good) ready.word

theorem not_exhausts (ready : Ready w args o settings) {i : Nat} (inside : o.files[i]? = some path)
    (loads : loadExpr w path = .ok e) : ¬ (fileBatch settings).Exhausts i e := by
  have few := ready.few path (List.mem_of_getElem? inside) e loads
  have less := (List.getElem?_eq_some_iff.mp inside).1
  have room := ready.room
  have start : (fileBatch settings).start.nextId = 0 := rfl
  have next : ((fileBatch settings).alone e).supply.nextId =
      wrap64 (0 + (e.drawn settings.level {} {}).length) :=
    e.inferTop_next settings.level {} (p := {}) (by decide)
  simp only [Batch.Exhausts, Batch.firstId, start, next, shiftWord_wrap64, wrap64_wrap64_add]
  simp only [batchIdRange, wordLimit] at few room ⊢
  rw [wrap64_of_isWord, wrap64_of_isWord]
  · omega
  all_goals
    simp only [IsWord, wordLimit]
    omega

end Ready

theorem nodeLines_eq_join (style : Style) (names : VarNames) {nodes : List Expr} {types : List Ty}
    (known : List.Forall₂ (fun node t => node.typeIn s = .ok t) nodes types) :
    nodeLines style s names nodes = .ok (String.join (List.zipWith (entry style)
      (nodes.map nodeLabel) (types.mapM (m := StateM VarNames) (s.showType style.width) names).1)) := by
  induction known generalizing names with
  | nil => rfl
  | @cons node t nodes types first _ ih =>
    simp only [nodeLines, first, Style.render, bind, Except.bind, ih, Store.mapM_showType_cons,
      List.map_cons, List.zipWith_cons_cons, String.join_cons]
    rfl

theorem report_eq_join {types : List Ty}
    (known : List.Forall₂ (fun node t => node.typeIn s = .ok t) (listed annotate e) types) :
    report style annotate s path e = .ok (String.join (List.zipWith (entry style)
      (labels annotate path e) (s.showAll style.width types))) := by
  obtain ⟨t, types, root, rest, rfl⟩ := List.forall₂_cons_left_iff.mp known
  have shown : s.showAll style.width (t :: types) = (s.showType style.width t {}).1 ::
      (types.mapM (m := StateM VarNames) (s.showType style.width) (s.showType style.width t {}).2).1 :=
    congrArg Prod.fst (s.mapM_showType_cons style.width t types {})
  cases annotate with
  | false =>
    cases rest
    simp only [report, root, Style.render, shown]
    rfl
  | true =>
    rw [if_pos rfl] at rest
    have nodes := nodeLines_eq_join style (s.showType style.width t {}).2 rest
    simp only [report, root, Style.render, bind, Except.bind, nodes, shown, labels, if_true,
      List.zipWith_cons_cons, String.join_cons]
    rfl

theorem inferFiles_of_error {error : BatchError}
    (fails : (inferAll settings.level {} 0 w.cancelled exprs {}).result = .error error) :
    ∃ log, inferFiles w o settings exprs =
      { exit := 1, stdout := "", stderr := log ++ batchMessage o.files error ++ "\n" } ∧
      (settings.debug = false → log = "") := by
  cases debug : settings.debug with
  | false =>
    refine ⟨"", ?_, fun _ => rfl⟩
    simp only [inferFiles, newEnv_inferAll, fails, debug, Bool.false_eq_true, if_false]
  | true =>
    let log := (inferAll settings.level {} 0 w.cancelled exprs {}).log
    refine ⟨String.join ((LogRecord.loaded o.files.length :: log).map LogRecord.toText), ?_, ?_⟩
    · simp only [inferFiles, newEnv_inferAll, fails, debug, if_true, log]
    · intro quiet
      cases quiet

theorem Ready.run_eq_fail (ready : Ready w args o settings)
    (unread : o.files.mapM (loadExpr w) = .error message) : run w args = fail message := by
  have nonempty : o.files.isEmpty = false := by simpa using ready.given
  simp only [run, ready.parsed, ready.asked, nonempty, ready.good, unread, Bool.false_eq_true, if_false]

theorem Ready.run_eq_inferFiles (ready : Ready w args o settings)
    (loaded : List.Forall₂ (fun path e => loadExpr w path = .ok e) o.files exprs) :
    run w args = inferFiles w o settings exprs := by
  have nonempty : o.files.isEmpty = false := by simpa using ready.given
  simp only [run, ready.parsed, ready.asked, nonempty, ready.good, mapM_eq_ok_iff.mpr loaded,
    Bool.false_eq_true, if_false]

theorem Ready.fails_of_unread (ready : Ready w args o settings)
    (unread : ∃ path ∈ o.files, ∀ e, loadExpr w path ≠ .ok e) :
    ∃ path, ∃ i, ∃ message,
      FirstAt (fun path => ∀ e, loadExpr w path ≠ .ok e) o.files i path ∧
      loadExpr w path = .error message ∧
      run w args = { exit := 1, stdout := "", stderr := message ++ "\n" } := by
  cases loaded : o.files.mapM (loadExpr w) with
  | ok exprs =>
    obtain ⟨path, member, unread⟩ := unread
    obtain ⟨e, -, loads⟩ := exists_of_forall₂ (mapM_eq_ok_iff.mp loaded).flip member
    exact absurd loads (unread e)
  | error message =>
    obtain ⟨path, i, first, fails⟩ := mapM_eq_error loaded
    refine ⟨path, i, message, first, fails, ?_⟩
    rw [ready.run_eq_fail loaded]
    rfl

theorem Ready.inferAll_ok_iff (ready : Ready w args o settings)
    (loaded : List.Forall₂ (fun path e => loadExpr w path = .ok e) o.files exprs) :
    (∃ results, (inferAll settings.level {} 0 false exprs {}).result = .ok results) ↔
      ∀ e ∈ exprs, ∃ typed, (e.inferTop settings.level {} {}).result = .ok typed := by
  refine (fileBatch_tells settings exprs).ok_iff fun i e gap inside _ => ?_
  obtain ⟨path, there, loads⟩ := forall₂_getElem? loaded inside
  exact ready.not_exhausts there loads

theorem Ready.fails_of_untyped (ready : Ready w args o settings)
    (loaded : List.Forall₂ (fun path e => loadExpr w path = .ok e) o.files exprs)
    (untyped : ∃ e ∈ exprs, ∀ typed, (e.inferTop settings.level {} {}).result ≠ .ok typed) :
    ∃ e path, ∃ i : Nat, ∃ error invalid log,
      FirstAt (fun e => ∀ typed, (e.inferTop settings.level {} {}).result ≠ .ok typed) exprs i e ∧
      o.files[i]? = some path ∧
      (e.inferTop settings.level {} {}).result = .error (.failed error invalid) ∧
      run w args =
        { exit := 1, stdout := "", stderr := log ++ path ++ ": " ++ error.message ++ "\n" } ∧
      (settings.debug = false → log = "") := by
  have tells := fileBatch_tells settings exprs
  cases outcome : (inferAll settings.level {} 0 false exprs {}).result with
  | ok results =>
    obtain ⟨e, member, none⟩ := untyped
    obtain ⟨typed, done⟩ := (ready.inferAll_ok_iff loaded).mp ⟨results, outcome⟩ e member
    exact absurd done (none typed)
  | error error =>
    rw [outcome] at tells
    obtain ⟨i, e, inside, before, stops⟩ := tells.stops
    rw [Nat.zero_add] at stops
    obtain ⟨path, there, loads⟩ := forall₂_getElem? loaded inside
    cases stops with
    | @failed gap error error' invalid final holds fails alike =>
      have run := ready.run_eq_inferFiles loaded
      rw [← ready.going] at outcome
      obtain ⟨log, printed, quiet⟩ := inferFiles_of_error (o := o) outcome
      refine ⟨e, path, i, error, invalid, log, ⟨inside, ?_, ?_⟩, there, fails, ?_, quiet⟩
      · intro typed done
        cases fails.symm.trans done
      · intro j less earlier place none
        obtain ⟨typed, done⟩ := before j less earlier place
        exact none typed done
      · simp only [run, printed, batchMessage, there, Option.getD_some, alike.message_eq,
          String.append_assoc]
    | fault fails =>
      rcases ready.safe (List.mem_of_getElem? there) loads with ⟨typed, done, -⟩ | ⟨_, _, done, -⟩
      · cases fails.symm.trans done
      · cases fails.symm.trans done
    | exhausted holds done exhausts => exact absurd exhausts (ready.not_exhausts there loads)

theorem Ready.entries_of_typed (ready : Ready w args o settings) (member : path ∈ o.files)
    (loads : loadExpr w path = .ok e)
    (done : (e.inferTop settings.level {} {}).result = .ok typed) (style : Style) :
    ∃ entries, Entries style o.annotate settings.level path e entries ∧
      report style o.annotate (e.inferTop settings.level {} {}).supply.store path typed =
        .ok (String.join entries) := by
  rcases ready.safe member loads with ⟨typed', done', same, known⟩ | ⟨_, _, fails, -⟩
  · cases done.symm.trans done'
    have run := Expr.infer_of_inferTop done
    have each : ∀ node ∈ listed o.annotate typed,
        ∃ t, node.typeIn (e.inferTop settings.level {} {}).supply.store = .ok t := by
      intro node listed
      have inside : node ∈ typed.nodes := by
        rcases List.mem_cons.mp listed with rfl | listed
        · exact Expr.self_mem_nodes_of_infer run
        · split at listed
          · exact listed
          · cases listed
      obtain ⟨t, type, -⟩ := known node inside
      exact ⟨t, type⟩
    obtain ⟨types, known⟩ := exists_forall₂ each
    have labels_eq : labels o.annotate path typed = labels o.annotate path e := by
      simp only [labels, Expr.infer_labels run]
    have labels_length : (labels o.annotate path typed).length = types.length := by
      rw [← known.length_eq]
      cases annotate : o.annotate <;> simp [labels, listed]
    refine ⟨_, ⟨typed, types, done, same, known, rfl, ?_⟩, ?_⟩
    · rw [List.length_zipWith, Store.length_showAll, ← labels_eq, labels_length, Nat.min_self]
    · rw [report_eq_join known, labels_eq]
  · cases fails.symm.trans done

theorem reports_eq_flatten {pairs : List (String × Expr)} {entries : List (List String)}
    (each : List.Forall₂
      (fun pair lines => report style annotate s pair.1 pair.2 = .ok (String.join lines)) pairs entries) :
    reports style annotate s pairs = .ok (String.join entries.flatten) := by
  induction each with
  | nil => rfl
  | cons first _ ih =>
    simp only [reports, first, ih, bind, Except.bind, List.flatten_cons, String.join_append]
    rfl

theorem Ready.entries_of_result (ready : Ready w args o settings)
    (loaded : List.Forall₂ (fun path e => loadExpr w path = .ok e) o.files exprs)
    {results : List Expr}
    (done : (inferAll settings.level {} 0 false exprs {}).result = .ok results) (style : Style) :
    ∀ triple ∈ (o.files.zip exprs).zip results, ∃ lines,
      Entries style o.annotate settings.level triple.1.1 triple.1.2 lines ∧
        report style o.annotate (inferAll settings.level {} 0 false exprs {}).store triple.1.1
          triple.2 = .ok (String.join lines) := by
  have tells := fileBatch_tells settings exprs
  rw [done] at tells
  intro triple member
  obtain ⟨i, inside⟩ := List.mem_iff_getElem?.mp member
  obtain ⟨pair, result⟩ := List.getElem?_zip_eq_some.mp inside
  obtain ⟨here, there⟩ := List.getElem?_zip_eq_some.mp pair
  obtain ⟨e, gap, typed, there', copy, -⟩ := tells.copies.2 i triple.2 result
  cases there.symm.trans there'
  obtain ⟨path, here', loads⟩ := forall₂_getElem? loaded there
  cases here.symm.trans here'
  obtain ⟨lines, entries, printed⟩ :=
    ready.entries_of_typed (List.mem_of_getElem? here) loads copy.result style
  exact ⟨lines, entries, (report_copy copy o.annotate _).trans printed⟩

theorem Ready.succeeds_of_typed (ready : Ready w args o settings)
    (loaded : List.Forall₂ (fun path e => loadExpr w path = .ok e) o.files exprs)
    (typed : ∀ e ∈ exprs, ∃ typed, (e.inferTop settings.level {} {}).result = .ok typed) :
    (run w args).exit = 0 ∧ ∃ entries,
      List.Forall₂ (fun pair lines => Entries ⟨settings.width, settings.useColor w.terminal⟩ o.annotate
        settings.level pair.1 pair.2 lines) (o.files.zip exprs) entries ∧
      (run w args).stdout = String.join entries.flatten := by
  let style : Style := ⟨settings.width, settings.useColor w.terminal⟩
  let final := (inferAll settings.level {} 0 false exprs {}).store
  obtain ⟨results, done⟩ := (ready.inferAll_ok_iff loaded).mpr typed
  have tells := fileBatch_tells settings exprs
  rw [done] at tells
  have length := tells.copies.1
  obtain ⟨entries, each⟩ := exists_forall₂ (ready.entries_of_result loaded done style)
  have lengths : o.files.length = exprs.length := loaded.length_eq
  have files : (o.files.zip exprs).map Prod.fst = o.files := List.map_fst_zip (by omega)
  have pairs : ((o.files.zip exprs).zip results).map Prod.fst = o.files.zip exprs :=
    List.map_fst_zip (by rw [List.length_zip]; omega)
  have shown : List.Forall₂
      (fun pair lines => Entries style o.annotate settings.level pair.1 pair.2 lines)
      (o.files.zip exprs) entries := by
    rw [← pairs, List.forall₂_map_left_iff]
    exact each.imp fun _ _ both => both.1
  have printed : List.Forall₂
      (fun pair lines => report style o.annotate final pair.1 pair.2 = .ok (String.join lines))
      (o.files.zip results) entries := by
    rw [← files, List.zip_map_left, List.forall₂_map_left_iff]
    exact each.imp fun _ _ both => both.2
  have outcome : (run w args).exit = 0 ∧ (run w args).stdout = String.join entries.flatten := by
    rw [ready.run_eq_inferFiles loaded, inferFiles_eq_zero_iff, ready.going]
    exact ⟨results, done, reports_eq_flatten printed⟩
  exact ⟨outcome.1, entries, shown, outcome.2⟩

/-- A run prints all or nothing. If a file cannot be read, it ends with the error of the first such
    file, whatever the others hold. If all can be read and some have no type, it ends with the error for
    the first of these behind the path of its file. Otherwise it prints the entries for the files, in
    order. -/
theorem run_all_or_nothing (ready : Ready w args o settings) :
    ((∃ path ∈ o.files, ∀ e, loadExpr w path ≠ .ok e) →
      ∃ path, ∃ i : Nat, ∃ message,
        FirstAt (fun path => ∀ e, loadExpr w path ≠ .ok e) o.files i path ∧
        loadExpr w path = .error message ∧
        run w args = { exit := 1, stdout := "", stderr := message ++ "\n" }) ∧
    ∀ exprs, List.Forall₂ (fun path e => loadExpr w path = .ok e) o.files exprs →
      ((∃ e ∈ exprs, ∀ typed, (e.inferTop settings.level {} {}).result ≠ .ok typed) →
        ∃ e path, ∃ i : Nat, ∃ error invalid log,
          FirstAt (fun e => ∀ typed, (e.inferTop settings.level {} {}).result ≠ .ok typed) exprs i e ∧
          o.files[i]? = some path ∧
          (e.inferTop settings.level {} {}).result = .error (.failed error invalid) ∧
          run w args =
            { exit := 1, stdout := "", stderr := log ++ path ++ ": " ++ error.message ++ "\n" } ∧
          (settings.debug = false → log = "")) ∧
      ((∀ e ∈ exprs, ∃ typed, (e.inferTop settings.level {} {}).result = .ok typed) →
        (run w args).exit = 0 ∧ ∃ entries,
          List.Forall₂ (fun pair lines => Entries ⟨settings.width, settings.useColor w.terminal⟩
            o.annotate settings.level pair.1 pair.2 lines) (o.files.zip exprs) entries ∧
          (run w args).stdout = String.join entries.flatten) :=
  ⟨ready.fails_of_unread, fun _ loaded =>
    ⟨ready.fails_of_untyped loaded, ready.succeeds_of_typed loaded⟩⟩

def mixedFiles : World where
  files path :=
    if path = "open.yaml" then .file "var: x"
    else if path = "list.yaml" then .file "nil: ~"
    else if path = "const.yaml" then .file "fn: {args: [x, y], body: {var: x}}"
    else .nowhere .missing
  complaints := ⟨id, id⟩
  cwd := []

theorem mixedFiles_ready {args : List String} {o : Options} (parsed : Options.ofArgs args = .ok o)
    (plain : o.help = false ∧ o.dump = false ∧ o.files ≠ [])
    (good : Command.settings mixedFiles o = .ok {})
    (room : o.files.length * batchIdRange < wordLimit)
    (few : ∀ path ∈ o.files, (loadExpr mixedFiles path).toOption.all
      (fun e => (e.drawn 1 {} {}).length ≤ batchIdRange) = true) :
    Ready mixedFiles args o {} where
  parsed := parsed
  asked := plain.1
  plain := plain.2.1
  given := plain.2.2
  going := rfl
  good := good
  word := by decide
  sized := by
    intro path member text found
    simp only [mixedFiles] at found
    split_ifs at found
    all_goals
      cases found
      decide
  room := room
  few := by
    intro path member e loads
    have checked := few path member
    rw [loads] at checked
    exact of_decide_eq_true checked

def unreadOptions : Options := { files := ["open.yaml", "gone.yaml"] }

def typedOptions : Options := { annotate := true, files := ["list.yaml", "const.yaml"] }

theorem typedOptions_typed : ∀ path ∈ typedOptions.files, ∃ e typed,
    loadExpr mixedFiles path = .ok e ∧ (e.inferTop 1 {} {}).result = .ok typed := by
  have each : ∀ path ∈ typedOptions.files, (loadExpr mixedFiles path).toOption.any
      (fun e => (e.inferTop 1 {} {}).result.toOption.isSome) = true := by
    decide +kernel
  intro path member
  have checked := each path member
  cases loads : loadExpr mixedFiles path with
  | error message =>
    rw [loads] at checked
    cases checked
  | ok e =>
    rw [loads] at checked
    cases done : (e.inferTop 1 {} {}).result with
    | error stop => simp [Except.toOption, done] at checked
    | ok typed => exact ⟨e, typed, rfl, done⟩

theorem run_all_or_nothing_mixed :
    let unread := ["open.yaml", "gone.yaml"]
    let typed := ["--annotate", "list.yaml", "const.yaml"]
    Ready mixedFiles unread unreadOptions {} ∧
    (∃ path, ∃ i : Nat, ∃ message,
      FirstAt (fun path => ∀ e, loadExpr mixedFiles path ≠ .ok e) unread i path ∧
      loadExpr mixedFiles path = .error message ∧
      run mixedFiles unread = { exit := 1, stdout := "", stderr := message ++ "\n" }) ∧
    (run mixedFiles unread).stderr = "reading gone.yaml: open gone.yaml: no such file or directory\n" ∧
    (run mixedFiles ["open.yaml"]).stderr = "open.yaml: 1:1: unknown variable x\n" ∧
    Ready mixedFiles typed typedOptions {} ∧
    (∃ exprs entries, List.Forall₂ (fun path e => loadExpr mixedFiles path = .ok e)
        typedOptions.files exprs ∧
      List.Forall₂ (fun pair lines => Entries ⟨80, false⟩ true 1 pair.1 pair.2 lines)
        (typedOptions.files.zip exprs) entries ∧
      (run mixedFiles typed).stdout = String.join entries.flatten) ∧
    run mixedFiles typed = { exit := 0, stderr := "", stdout :=
      "list.yaml: List(a)\n  1:1 Nil: List(a)\n" ++
      "const.yaml: fn(a, b) -> a\n  1:1 Fun: fn(a, b) -> a\n  1:26 Var: a\n" } := by
  intro unread typed
  have gone : ∀ e, loadExpr mixedFiles "gone.yaml" ≠ .ok e := by
    intro e loads
    cases loads
  have unreadReady : Ready mixedFiles unread unreadOptions {} :=
    mixedFiles_ready (by decide +kernel) (by decide) (by decide +kernel) (by decide) (by decide +kernel)
  have typedReady : Ready mixedFiles typed typedOptions {} :=
    mixedFiles_ready (by decide +kernel) (by decide) (by decide +kernel) (by decide) (by decide +kernel)
  refine ⟨unreadReady, ?_, by decide +kernel, by decide +kernel, typedReady, ?_, by decide +kernel⟩
  · exact (run_all_or_nothing unreadReady).1
      ⟨"gone.yaml", List.mem_cons_of_mem _ List.mem_cons_self, gone⟩
  · obtain ⟨e, t, loads, done⟩ := typedOptions_typed "list.yaml" (by decide)
    obtain ⟨e', t', loads', done'⟩ := typedOptions_typed "const.yaml" (by decide)
    have loaded : List.Forall₂ (fun path e => loadExpr mixedFiles path = .ok e)
        typedOptions.files [e, e'] :=
      .cons loads (.cons loads' .nil)
    obtain ⟨-, entries, shown, stdout⟩ := ((run_all_or_nothing typedReady).2 [e, e'] loaded).2
      (List.forall_mem_cons.mpr ⟨⟨t, done⟩, List.forall_mem_singleton.mpr ⟨t', done'⟩⟩)
    exact ⟨[e, e'], entries, loaded, shown, stdout⟩

end Command

end LetPoly
