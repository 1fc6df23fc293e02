import LetPoly.Command.Run

open LetPoly

/-- What a path of the real file system leads to. Bytes that are no text read as a lone control
    character, which no document admits. -/
def entryOf (path : String) : IO Entry := do
  let place := (← IO.currentDir) / path
  if ← place.isDir then return .directory
  try
    let bytes ← IO.FS.readBinFile place
    return .file ((String.fromUTF8? bytes).getD "\x00")
  catch
    | .inappropriateType .. => return .nowhere .notDirectory
    | .invalidArgument .. => return .nowhere .tooLong
    | _ => return .nowhere .missing

def main (args : List String) : IO UInt32 := do
  let cwd : Dir := ((← IO.currentDir).toString.splitOn "/").filter (· ≠ "")
  let entries ← (Command.consulted cwd args).mapM fun path => do return (path, ← entryOf path)
  let files : Files := fun path => (entries.lookup path).getD (.nowhere .missing)
  let stdout ← IO.getStdout
  let stderr ← IO.getStderr
  let complaints : Command.Complaints :=
    { document := fun _ => "malformed document", settings := fun _ => "malformed settings" }
  let outcome := Command.run { files, complaints, cwd, terminal := ← stdout.isTty } args
  stdout.putStr outcome.stdout
  stderr.putStr outcome.stderr
  return outcome.exit.toUInt32
