import LetPoly.Command.Options
import LetPoly.Expr.Document
import LetPoly.Settings
import LetPoly.Workspace

namespace LetPoly.Command

structure Outcome where
  exit : Nat
  stdout : String := ""
  stderr : String := ""
deriving DecidableEq, Repr

def fail (message : String) : Outcome := { exit := 1, stderr := message ++ "\n" }

/-- What is said about a malformed document, and about malformed settings. -/
structure Complaints where
  document : String → String
  settings : String → String

/-- Where a run takes place: the files, what is said about a malformed one, the working directory,
    whether it was stopped before it began and whether its output is a terminal. -/
structure World where
  files : Files
  complaints : Complaints
  cwd : Dir
  cancelled : Bool := false
  terminal : Bool := false

def fileSettings (w : World) (o : Options) : Except String Settings :=
  if o.config ≠ "" then
    (Settings.load w.files o.config).mapError
      (SettingsFileError.message w.complaints.settings o.config)
  else
    match Settings.find w.files w.cwd with
    | .error (path, e) => .error (e.message w.complaints.settings path)
    | .ok none => .ok {}
    | .ok (some (_, s)) => .ok s

/-- An option that was given comes before the setting of a file. -/
def override (o : Options) (s : Settings) : Settings :=
  { width := o.width.getD s.width
    level := o.level.getD s.level
    debug := o.debug.getD s.debug
    color := o.color.getD s.color }

def settings (w : World) (o : Options) : Except String Settings := do
  (override o (← fileSettings w o)).check.mapError SettingsError.message

def loadExpr (w : World) (path : String) : Except String Expr :=
  match w.files.read path with
  | .error e => .error (s!"reading {path}: " ++ e.message path)
  | .ok text => (Expr.ofText text).mapError (DocumentError.message w.complaints.document path)

structure Style where
  width : Int
  color : Bool
deriving DecidableEq, Repr

namespace Style

def paint (style : Style) (text : String) : String :=
  if style.color then "\x1b[36m" ++ text ++ "\x1b[0m" else text

def render (style : Style) (s : Store) (t : Ty) (names : VarNames) : String × VarNames :=
  let (text, names) := s.showType style.width t names
  (style.paint text, names)

end Style

def nodeLines (style : Style) (s : Store) (names : VarNames) : List Expr → Except Fault String
  | [] => .ok ""
  | node :: rest => do
    let (text, names) := style.render s (← node.typeIn s) names
    let line := s!"  {node.pos.toText} {node.form}: " ++ text ++ "\n"
    return line ++ (← nodeLines style s names rest)

def report (style : Style) (annotate : Bool) (s : Store) (path : String) (e : Expr) :
    Except Fault String := do
  let (text, names) := style.render s (← e.typeIn s) {}
  let head := s!"{path}: " ++ text ++ "\n"
  if annotate then return head ++ (← nodeLines style s names e.nodes) else return head

def reports (style : Style) (annotate : Bool) (s : Store) :
    List (String × Expr) → Except Fault String
  | [] => .ok ""
  | (path, e) :: rest => do
    return (← report style annotate s path e) ++ (← reports style annotate s rest)

def batchMessage (files : List String) (e : BatchError) : String :=
  match e with
  | .failed index error => (files[index]?.getD "") ++ ": " ++ error.message
  | e => e.message?.getD "internal fault"

def inferFiles (w : World) (o : Options) (s : Settings) (exprs : List Expr) : Outcome :=
  let (env, work) := ({} : Workspace).newEnv 0
  let (r, work) := work.inferAll (some env) s.level w.cancelled exprs
  let log :=
    if s.debug then
      String.join ((LogRecord.loaded o.files.length :: r.log).map LogRecord.toText)
    else ""
  let failed (message : String) : Outcome := { exit := 1, stderr := log ++ message ++ "\n" }
  match r.result with
  | .error e => failed (batchMessage o.files e)
  | .ok typed =>
    match reports ⟨s.width, s.useColor w.terminal⟩ o.annotate work.store (o.files.zip typed) with
    | .error f => failed (f.message?.getD "internal fault")
    | .ok text => { exit := 0, stdout := text, stderr := log }

def usage : String :=
  "hindley infers the principal type of each expression document (YAML or JSON)\n" ++
  "and prints it, or reports the first type error.\n\n" ++
  "Usage:\n" ++
  "  hindley [flags] FILE...\n\n" ++
  "Examples:\n" ++
  "  # Print the type of an expression\n" ++
  "  hindley id.yaml\n\n" ++
  "  # Print the type of every sub-expression\n" ++
  "  hindley --annotate id.yaml\n\n" ++
  "  # Wrap types at 40 columns, with debug logging\n" ++
  "  hindley --width 40 -d id.yaml\n\n" ++
  "Flags:\n" ++
  "      --annotate        Print the type of every sub-expression\n" ++
  "      --color string    Color output: auto, always or never (default \"auto\")\n" ++
  "      --config string   Path to " ++ Settings.fileName ++
    " (searched for from the working directory if not specified)\n" ++
  "  -d, --debug           Enable debug logging\n" ++
  "      --dump            Dump the typed expression tree\n" ++
  "  -h, --help            help for hindley\n" ++
  "      --level int       Binding-level for top-level expressions (default 1)\n" ++
  "      --width int       Line width for rendered types (default 80)\n"

/-- The whole command. The arguments are read first, then the settings, then all files, and only
    then is anything inferred. -/
def run (w : World) (args : List String) : Outcome :=
  match Options.ofArgs args with
  | .error e => fail e.message
  | .ok o =>
    if o.help then { exit := 0, stdout := usage }
    else if o.files.isEmpty then fail UsageError.noFiles.message
    else
      match settings w o with
      | .error message => fail message
      | .ok s =>
        match o.files.mapM (loadExpr w) with
        | .error message => fail message
        | .ok exprs => inferFiles w o s exprs

def consulted (cwd : Dir) (args : List String) : List String :=
  match Options.ofArgs args with
  | .error _ => []
  | .ok o =>
    let ups := (List.range (cwd.length + 1)).map fun n => cwd.take n
    o.config :: o.files ++
      ups.flatMap fun dir : Dir => [dir.join Settings.fileName, dir.join ".git"]

end LetPoly.Command
