import LetPoly.Command.Run
import LetPoly.Proofs.Batch.Prelude
import LetPoly.Proofs.Batch.Results
import LetPoly.Proofs.Outcome

namespace LetPoly

namespace Command

variable {s s' : Store} {κ : Int → Int} {style : Style} {e e' : Expr}

structure SameLine (s s' : Store) (κ : Int → Int) (node node' : Expr) : Prop where
  pos : node'.pos = node.pos
  form : node'.form = node.form
  type : ∃ t t', node.typeIn s = .ok t ∧ node'.typeIn s' = .ok t' ∧ s.Finite t ∧ s'.Finite t' ∧
    s.Renumbered s' κ t t'

theorem nodeLines_eq {nodes nodes' : List Expr} (injective : Function.Injective κ)
    (same : List.Forall₂ (SameLine s s' κ) nodes nodes') (names : VarNames) :
    nodeLines style s' (names.renumber κ) nodes' = nodeLines style s names nodes := by
  induction same generalizing names with
  | nil => rfl
  | cons first _ ih =>
    obtain ⟨t, t', known, known', finite, finite', seen⟩ := first.type
    have shown := Store.showType_renumbered finite finite' injective seen style.width names
    simp only [nodeLines, known, known', first.pos, first.form, Style.render, bind, Except.bind,
      shown, ih]

theorem report_eq (injective : Function.Injective κ) (root : SameLine s s' κ e e')
    (nodes : List.Forall₂ (SameLine s s' κ) e.nodes e'.nodes) (annotate : Bool) (path : String) :
    report style annotate s' path e' = report style annotate s path e := by
  obtain ⟨t, t', known, known', finite, finite', seen⟩ := root.type
  have shown : s'.showType style.width t' {} =
      ((s.showType style.width t {}).1, (s.showType style.width t {}).2.renumber κ) :=
    Store.showType_renumbered finite finite' injective seen style.width {}
  simp only [report, known, known', Style.render, bind, Except.bind, shown, nodeLines_eq injective nodes]

theorem report_copy {b : Batch} {loose : Prop} {index gap : Nat} {typed typed' : Expr} {final : Store}
    (copy : b.Copy loose index e gap typed typed' final) (annotate : Bool) (path : String) :
    report style annotate final path typed' =
      report style annotate (b.alone e).supply.store path typed := by
  have facing := copy.lies.own_facing (Nat.le_refl _)
  have line : ∀ node node',
      node.Alike ((b.mirror loose index gap).Own (b.alone e).supply.store.size) node' →
      SameLine (b.alone e).supply.store final (b.mirror loose index gap).number node node' := by
    intro node node' alike
    obtain ⟨t, t', known, known', own⟩ := Mirror.typeIn_alike facing alike
    exact ⟨alike.pos_eq, alike.form_eq, t, t', known, known', facing.finite_of_leaves own.own,
      facing.finite_mate own.own own.mates, facing.shown_eq own.own own.mates⟩
  exact report_eq (b.mirror loose index gap).injective (line _ _ copy.alike)
    (copy.alike.nodes.imp line) annotate path

theorem reports_singleton (annotate : Bool) (path : String) :
    reports style annotate s [(path, e)] = report style annotate s path e := by
  simp only [reports, bind, Except.bind]
  cases report style annotate s path e with
  | error f => rfl
  | ok text => simp [pure, Except.pure]

theorem reports_eq_join {pairs : List (String × Expr)} {annotate : Bool} (text : String × Expr → String)
    (each : ∀ pair ∈ pairs, report style annotate s pair.1 pair.2 = .ok (text pair)) :
    reports style annotate s pairs = .ok (String.join (pairs.map text)) := by
  induction pairs with
  | nil => rfl
  | cons pair pairs ih =>
    obtain ⟨first, rest⟩ := List.forall_mem_cons.mp each
    simp only [reports, first, ih rest, bind, Except.bind, List.map_cons, String.join_cons]
    rfl

variable {w : World} {o : Options} {settings : Settings} {exprs typed : List Expr} {text : String}

theorem newEnv_inferAll (level : Int) (cancelled : Bool) (exprs : List Expr) :
    (({} : Workspace).newEnv 0).2.inferAll (some (({} : Workspace).newEnv 0).1) level cancelled exprs =
      (inferAll level {} 0 cancelled exprs {},
        { (({} : Workspace).newEnv 0).2 with
          store := (inferAll level {} 0 cancelled exprs {}).store }) := rfl

theorem inferFiles_eq_zero_iff : (inferFiles w o settings exprs).exit = 0 ∧
    (inferFiles w o settings exprs).stdout = text ↔
    ∃ typed, (inferAll settings.level {} 0 w.cancelled exprs {}).result = .ok typed ∧
      reports ⟨settings.width, settings.useColor w.terminal⟩ o.annotate
        (inferAll settings.level {} 0 w.cancelled exprs {}).store (o.files.zip typed) = .ok text := by
  simp only [inferFiles, newEnv_inferAll]
  cases (inferAll settings.level {} 0 w.cancelled exprs {}).result with
  | error error => simp
  | ok typed =>
    simp only [Except.ok.injEq, exists_eq_left']
    cases reports ⟨settings.width, settings.useColor w.terminal⟩ o.annotate
      (inferAll settings.level {} 0 w.cancelled exprs {}).store (o.files.zip typed) with
    | error f => simp
    | ok printed => simp

theorem run_eq_zero_iff {args : List String} (parsed : Options.ofArgs args = .ok o)
    (asked : o.help = false) (given : o.files ≠ []) :
    (run w args).exit = 0 ∧ (run w args).stdout = text ↔
      ∃ settings exprs typed, Command.settings w o = .ok settings ∧
        List.Forall₂ (fun path e => loadExpr w path = .ok e) o.files exprs ∧
        (inferAll settings.level {} 0 w.cancelled exprs {}).result = .ok typed ∧
        reports ⟨settings.width, settings.useColor w.terminal⟩ o.annotate
          (inferAll settings.level {} 0 w.cancelled exprs {}).store (o.files.zip typed) = .ok text := by
  have nonempty : o.files.isEmpty = false := by simpa using given
  simp only [run, parsed, asked, nonempty, Bool.false_eq_true, if_false]
  cases Command.settings w o with
  | error message => simp [fail]
  | ok settings =>
    simp only [← mapM_eq_ok_iff, Except.ok.injEq, exists_and_left, exists_eq_left']
    cases o.files.mapM (loadExpr w) with
    | error message => simp [fail]
    | ok exprs =>
      simp only [Except.ok.injEq, exists_eq_left']
      exact inferFiles_eq_zero_iff

def fileBatch (settings : Settings) : Batch := ⟨⟨{}, 0⟩, settings.level, {}⟩

theorem fileBatch_tells (settings : Settings) (exprs : List Expr) :
    (fileBatch settings).Tells True 0 exprs (inferAll settings.level {} 0 false exprs {}).result
      (inferAll settings.level {} 0 false exprs {}).store := by
  have word : IsWord 0 := by decide
  have none : ∀ {P : String × Ty → Prop}, ∀ entry ∈ (fileBatch settings).env.entries, P entry := by
    intro P entry member
    cases member
  exact Batch.inferAll_tells rfl none none word fun _ _ _ _ _ => True.intro

theorem not_exhausts_later {index : Nat} (word : IsWord ((fileBatch settings).alone e).supply.nextId)
    (fits : ¬ (fileBatch settings).Exhausts 0 e)
    (room : index * batchIdRange + batchIdRange < wordLimit) :
    ¬ (fileBatch settings).Exhausts index e := by
  have first := Batch.offset_nonneg index
  have range : 0 ≤ batchIdRange := by decide
  have start : (fileBatch settings).start.nextId = 0 := rfl
  simp only [Batch.Exhausts, Batch.firstId, start, shiftWord_of_isWord word, wrap64_wrap64_add,
    Int.zero_add, Int.natCast_zero, Int.zero_mul, Int.add_zero, wrap64_of_isWord word] at fits ⊢
  obtain ⟨low, -⟩ := word
  rw [wrap64_of_isWord ⟨by omega, by omega⟩] at fits
  rw [wrap64_of_isWord ⟨by omega, by omega⟩, wrap64_of_isWord ⟨by omega, by omega⟩]
  omega

/-- What the run on one file tells: it has a type, for which the text is printed. -/
structure Prints (w : World) (o : Options) (settings : Settings) (path : String) (text : String)
    (e : Expr) : Prop where
  loads : loadExpr w path = .ok e
  word : IsWord ((fileBatch settings).alone e).supply.nextId
  fits : ¬ (fileBatch settings).Exhausts 0 e
  report : ∃ typed, ((fileBatch settings).alone e).result = .ok typed ∧
    Command.report ⟨settings.width, settings.useColor w.terminal⟩ o.annotate
      ((fileBatch settings).alone e).supply.store path typed = .ok text

theorem exists_prints {path : String} {args : List String}
    (parsed : Options.ofArgs args = .ok { o with files := [path] }) (asked : o.help = false)
    (succeeds : (run w args).exit = 0) :
    w.cancelled = false ∧ ∃ settings e, Command.settings w o = .ok settings ∧
      Prints w o settings path (run w args).stdout e := by
  obtain ⟨settings, exprs, typed, good, loads, done, printed⟩ :=
    (run_eq_zero_iff parsed asked (List.cons_ne_nil _ _)).mp ⟨succeeds, rfl⟩
  obtain ⟨e, _, loaded, ⟨⟩, rfl⟩ := List.forall₂_cons_left_iff.mp loads
  have going : w.cancelled = false := by
    obtain ⟨-, cancelled, -⟩ := inferAll_eq_ok done
    by_contra stopped
    exact List.cons_ne_nil _ _ (cancelled (by simpa using stopped))
  rw [going] at done printed
  -- one file is a batch of one expression, with its numbers where the run alone has them
  have tells := fileBatch_tells settings [e]
  rw [done] at tells
  obtain ⟨length, each⟩ := tells.copies
  obtain ⟨typed', rfl⟩ := List.length_eq_one_iff.mp length
  obtain ⟨_, gap, typed, there, copy, fits⟩ := each 0 typed' rfl
  cases there
  refine ⟨going, settings, e, good, loaded, ?_, fits, typed, copy.result, ?_⟩
  · obtain ⟨n, drawn⟩ := copy.drawn
    rw [drawn.next]
    exact isWord_wrap64 _
  · rw [← report_copy copy, ← reports_singleton]
    exact printed

/-- A run on many files prints what the runs on each of them print, one behind the other. The ranges
    that the variables of the files have their numbers from do not show. -/
theorem run_eq_join {args : List String} {alone : String → List String}
    (parsed : Options.ofArgs args = .ok o) (asked : o.help = false) (given : o.files ≠ [])
    (room : o.files.length * batchIdRange < wordLimit)
    (single : ∀ path ∈ o.files, Options.ofArgs (alone path) = .ok { o with files := [path] })
    (succeeds : ∀ path ∈ o.files, (run w (alone path)).exit = 0) :
    (run w args).exit = 0 ∧ (run w args).stdout =
      String.join (o.files.map fun path => (run w (alone path)).stdout) := by
  obtain ⟨first, member⟩ := List.exists_mem_of_ne_nil _ given
  obtain ⟨going, settings, -, good, -⟩ := exists_prints (single first member) asked
    (succeeds first member)
  have prints : ∀ path ∈ o.files, ∃ e, Prints w o settings path (run w (alone path)).stdout e := by
    intro path member
    obtain ⟨-, settings', e, good', prints⟩ := exists_prints (single path member) asked
      (succeeds path member)
    -- the settings are read before the files, and do not depend on them
    cases good.symm.trans good'
    exact ⟨e, prints⟩
  obtain ⟨exprs, prints⟩ := exists_forall₂ prints
  have tells := fileBatch_tells settings exprs
  obtain ⟨results, done⟩ : ∃ results, (inferAll settings.level {} 0 false exprs {}).result =
      .ok results := by
    refine (tells.ok_iff fun i e gap inside _ => ?_).mpr fun e member => ?_
    · obtain ⟨path, there, prints⟩ := forall₂_getElem? prints inside
      have less := (List.getElem?_eq_some_iff.mp there).1
      refine not_exhausts_later prints.word prints.fits ?_
      simp only [batchIdRange] at room ⊢
      omega
    · obtain ⟨path, -, prints⟩ := exists_of_forall₂ prints member
      obtain ⟨typed, done, -⟩ := prints.report
      exact ⟨typed, done⟩
  rw [done] at tells
  obtain ⟨length, each⟩ := tells.copies
  refine (run_eq_zero_iff parsed asked given).mpr ⟨settings, exprs, results, good,
    prints.imp fun _ _ prints => prints.loads, going ▸ done, ?_⟩
  -- the result for each file is a copy of the one that the run on it alone has
  rw [going, reports_eq_join fun pair => (run w (alone pair.1)).stdout]
  · have firsts : (o.files.zip results).map Prod.fst = o.files :=
      List.map_fst_zip (by rw [prints.length_eq, length])
    conv_rhs => rw [← firsts, List.map_map]
    rfl
  · intro pair member
    obtain ⟨i, inside⟩ := List.mem_iff_getElem?.mp member
    obtain ⟨here, result⟩ := List.getElem?_zip_eq_some.mp inside
    obtain ⟨e, gap, typed, there, copy, -⟩ := each i pair.2 result
    obtain ⟨path, here', prints⟩ := forall₂_getElem? prints there
    cases here.symm.trans here'
    obtain ⟨typed', done, printed⟩ := prints.report
    cases copy.result.symm.trans done
    exact (report_copy copy o.annotate pair.1).trans printed

def twoFiles : World where
  files path :=
    match path with
    | "list.yaml" => .file "nil: ~"
    | "const.yaml" => .file "fn: {args: [x, y], body: {var: x}}"
    | _ => .nowhere .missing
  complaints := ⟨id, id⟩
  cwd := []

def twoFilesOptions : Options := { annotate := true, files := ["list.yaml", "const.yaml"] }

theorem run_eq_join_twoFiles :
    let alone := fun path => ["--annotate", path]
    Options.ofArgs ["--annotate", "list.yaml", "const.yaml"] = .ok twoFilesOptions ∧
    (∀ path ∈ twoFilesOptions.files,
      Options.ofArgs (alone path) = .ok { twoFilesOptions with files := [path] } ∧
        (run twoFiles (alone path)).exit = 0) ∧
    (run twoFiles ["--annotate", "list.yaml", "const.yaml"]).exit = 0 ∧
    (run twoFiles ["--annotate", "list.yaml", "const.yaml"]).stdout =
      String.join [(run twoFiles (alone "list.yaml")).stdout,
        (run twoFiles (alone "const.yaml")).stdout] ∧
    (run twoFiles (alone "const.yaml")).stdout =
      "const.yaml: fn(a, b) -> a\n  1:1 Fun: fn(a, b) -> a\n  1:26 Var: a\n" := by
  intro alone
  have parsed : Options.ofArgs ["--annotate", "list.yaml", "const.yaml"] = .ok twoFilesOptions := by
    decide +kernel
  have single : ∀ path ∈ twoFilesOptions.files,
      Options.ofArgs (alone path) = .ok { twoFilesOptions with files := [path] } := by
    decide +kernel
  have succeeds : ∀ path ∈ twoFilesOptions.files, (run twoFiles (alone path)).exit = 0 := by
    decide +kernel
  obtain ⟨exit, stdout⟩ := run_eq_join (w := twoFiles) parsed rfl (List.cons_ne_nil _ _) (by decide)
    single succeeds
  exact ⟨parsed, fun path member => ⟨single path member, succeeds path member⟩, exit, stdout,
    by decide +kernel⟩

end Command

end LetPoly
