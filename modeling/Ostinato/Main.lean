import Ostinato.Command.Outcome

/-!
# Command line

Reads the session file that a command names, and writes what the command leads to.
-/

namespace Ostinato

def Trouble.ofError : IO.Error → Trouble
  | .permissionDenied .. => .forbidden
  | .inappropriateType _ code _ => if code = 20 then .notFolder else .isFolder
  | _ => .missing

def readFile (p : Path) : IO (Except Trouble (List UInt8)) := do
  try
    let bytes ← IO.FS.readBinFile p.text
    return .ok bytes.toList
  catch e => return .error (.ofError e)

/-- What is found at the path of a session file, if arguments name one. -/
def readNamed (arguments : List String) : IO (Except Trouble (List UInt8)) := do
  match Command.Request.ofArguments arguments with
  | .ok (some r) =>
    match r.filledText? .config with
    | some written => readFile (.ofString written)
    | none => return .error .missing
  | _ => return .error .missing

/-- Seeds for sessions without one are drawn up to this bound. -/
def chanceBound : Nat := Nat.pow 2 62

end Ostinato

def main (arguments : List String) : IO UInt32 := do
  let found ← Ostinato.readNamed arguments
  let chance ← IO.rand 0 Ostinato.chanceBound
  let reader : Ostinato.Session.Reader := ⟨fun _ => found, fun _ _ => Ostinato.Yaml.Fault.malformed.message⟩
  let outcome := Ostinato.Command.run arguments reader .bundled chance
  (← IO.getStdout).putStr outcome.output
  (← IO.getStderr).putStr outcome.complaint
  return outcome.exitStatus.toUInt32
