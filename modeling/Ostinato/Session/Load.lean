import Ostinato.Session
import Ostinato.Session.Arrival
import Ostinato.Session.Folder
import Ostinato.Yaml.Load

/-!
# Session files

A session file holds one document with the fields of a session. Every way in which a file can fail to
be one has its message.
-/

namespace Ostinato

namespace Session

/-- What session files are read with: the bytes at a path, and what is said against a document there that
breaks the rules of the format. -/
structure Reader where
  bytes : Path → Except Trouble (List UInt8)
  objection : Path → List UInt8 → String

inductive Fault where
  /-- The path cannot be opened at all. -/
  | unnamable
  | unreadable (path : Path) (trouble : Trouble)
  | undecodable (fault : Utf8.Fault)
  /-- A value in the document is none. -/
  | unvalued (fault : Yaml.Fault)
  | malformed (path : Path) (objection : String)
  | notMap (path : Path)
  | invalid (path : Path) (rejection : Rejection)
  /-- The choices on top of a session do not make a selection. -/
  | invalidSelection (rejection : Rejection)
deriving Repr

namespace Fault

def message : Fault → String
  | unnamable => "embedded null byte"
  | unreadable path trouble => s!"Cannot read session file {path.text}: {trouble.message path}"
  | undecodable fault => fault.message
  | unvalued fault => fault.message
  | malformed path objection => s!"Invalid YAML in {path.text}: {objection}"
  | notMap path => s!"Session file {path.text} must contain a mapping"
  | invalid path rejection => s!"Invalid session in {path.text}:\n{rejection.text}"
  | invalidSelection rejection => s!"Invalid selection:\n{rejection.text}"

/-- Whether a fault is told as a message on the session. The others are faults below it: of the path, of
the characters, or of a single value. -/
def isTold : Fault → Bool
  | unnamable => false
  | undecodable _ => false
  | unvalued _ => false
  | _ => true

/-- The fault of a session whose document is none. -/
def ofDocument (path : Path) (objection : String) : Yaml.Fault → Fault
  | .malformed => malformed path objection
  | fault => unvalued fault

end Fault

/-- The document in a file; an empty one is a map without entries. Of a text that is broken, the part that
was passed on may have a fault of its own, which is met first. -/
def document (path : Path) (bytes : List UInt8) (objection : String) : Except Fault Datum :=
  match Arrival.ofBytes bytes with
  | .broken passed trouble =>
    match Yaml.faultWithin? passed with
    | some fault => .error (.ofDocument path objection fault)
    | none => .error (.undecodable trouble)
  | .whole text =>
    match Yaml.load text with
    | .error fault => .error (.ofDocument path objection fault)
    | .ok .null => .ok (.map [])
    | .ok d => .ok d

def ofBytes (path : Path) (bytes : List UInt8) (objection : String) : Except Fault Session := do
  match ← document path bytes objection with
  | .map entries =>
    match codec.decode (.map entries) with
    | .ok s => return s
    | .faulty faults => throw (.invalid path ⟨title, faults⟩)
  | _ => throw (.notMap path)

/-- The session at a written path. A path with the character zero leads nowhere. -/
def load (written : String) (reader : Reader) : Except Fault Session :=
  let path := Path.ofString written
  if path.text.contains '\x00' then .error .unnamable
  else match reader.bytes path with
    | .error trouble => .error (.unreadable path trouble)
    | .ok bytes => ofBytes path bytes (reader.objection path bytes)

end Session

end Ostinato
