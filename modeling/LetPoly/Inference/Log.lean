import LetPoly.Text.Quoted

namespace LetPoly

inductive LogRecord
  | loaded (files : Nat)
  | completed (form type : String) (nextId : Int)
  | failed (form error : String)
deriving DecidableEq, Repr

def needsQuotes (s : String) : Bool :=
  s.isEmpty || s.any fun c =>
    c = ' ' || c = '=' || c = '"' || c.toNat < 0x20 || c = '\ufffd' ||
      (0x7f < c.toNat && !Text.isPrintable c)

def logValue (s : String) : String := if needsQuotes s then Text.quote s else s

def LogRecord.toText (r : LogRecord) : String :=
  let fields :=
    match r with
    | .loaded files => [("msg", "loaded expressions"), ("files", toString files)]
    | .completed form type nextId =>
      [("msg", "type inference completed"), ("expr", form), ("type", type),
       ("nextVarId", toString nextId)]
    | .failed form error => [("msg", "type inference failed"), ("expr", form), ("error", error)]
  let pairs := (("level", "DEBUG") :: fields).map fun (key, value) => key ++ "=" ++ logValue value
  " ".intercalate pairs ++ "\n"

end LetPoly
