import Ostinato.BassLine
import Ostinato.Catalog.Bundled
import Ostinato.Command.Request
import Ostinato.Report.Arrangement
import Ostinato.Report.Catalog
import Ostinato.Report.Json
import Ostinato.Report.Lines
import Ostinato.Session.Load

/-!
# Outcomes of commands

What a request leads to: a text and whether the request was accepted, or a session that cannot be used.
Choices given with a command replace those of its session.
-/

namespace Ostinato.Command

/-- The end of a request that was carried out. -/
structure Finish where
  text : String
  accepted : Bool
deriving DecidableEq, Repr

inductive Outcome where
  /-- Help was asked for, or no verb was given. -/
  | usage (asked : Bool)
  | misuse (verb : Option Verb) (misuse : Misuse)
  | noSession (fault : Session.Fault)
  | failed (failure : Failure)
  | finished (finish : Finish)
deriving Repr

/-! ### Sessions of requests -/

/-- A value as data; where there is none, an empty list. -/
def Value.datum : Value → Datum
  | nothing => .list []
  | text written => .text written
  | number n => .int n

namespace Request

/-- A number, or nothing. -/
def numberDatum : Option Int → Datum
  | some n => .int n
  | none => .null

/-- What is given with a switch, or else what stands in its place. -/
def chosen (r : Request) (s : Switch) (otherwise : Datum) : Datum :=
  (r.value? s).elim otherwise Value.datum

/-- The choices of a selection with those of a request in their place. -/
def choices (r : Request) (s : Selection) : Datum := .object [
  ("genre", r.chosen .genre (.optionalText s.genre)),
  ("level", r.chosen .level (numberDatum s.level)),
  ("progression_id", r.chosen .progression (.optionalText s.progressionId)),
  ("root_string", r.chosen .rootString (numberDatum s.rootString)),
  ("randomness", r.chosen .randomness (.int s.randomness)),
  ("part", PartName.codec.encode s.part)]

/-- The session of a request: from its file, or the usual one, with what the request itself gives. -/
def session (r : Request) (reader : Session.Reader) : Except Session.Fault Session := do
  let session ← match r.filledText? .config with
    | some written => Session.load written reader
    | none => pure .usual
  match Selection.codec.decode (r.choices session.selection) with
  | .faulty faults => throw (.invalidSelection ⟨Selection.title, faults⟩)
  | .ok selection =>
    return { session with
      selection := selection
      seed := (r.number? .seed).or session.seed }

end Request

/-! ### Verbs -/

/-- A report as text, or the same as data where this is asked for. -/
def Request.show (r : Request) (text : String) (data : Datum) : String :=
  if r.has .json then Json.text data else text

def selectedChart (s : Session) (c : Catalog) : Option Chart := s.selection.progressionId.bind c.chart?

/-- The bass line for a session; `chance` is the seed of a session without one. A seed without a value
starts no random source. -/
def bass (r : Request) (s : Session) (c : Catalog) (chance : Int) : Except Failure Finish := do
  if r.value? .seed = some .nothing then throw .seedWithoutValue
  let line ← ((BassLine.make s.selection (selectedChart s c) (s.rules c)).runFrom (s.source chance)).1
  return ⟨r.show line.report line.datum, line.verdict.isValid⟩

def lead (r : Request) (s : Session) (c : Catalog) : Finish :=
  let line := LeadLine.make s.selection (selectedChart s c) (s.rules c) c.licks c.scales
  ⟨r.show line.report line.datum, line.verdict.isValid⟩

/-- Goes on with the progression of a request, or else the one of its session. -/
def withProgression (r : Request) (s : Session) (c : Catalog)
    (andThen : Progression → Except Failure Finish) : Except Failure Finish := do
  let id := (r.filledText? .progression).getD s.progression
  match ← Failure.ofRecord (c.resolve? id) with
  | some p => andThen p
  | none => return ⟨s!"Unknown progression '{id}'", false⟩

def pipeline (r : Request) (s : Session) (c : Catalog) : Except Failure Finish :=
  withProgression r s c fun p => do
    let further ← (r.values .rule).mapM fun id => Failure.ofRecord (AppliedRule.everywhere id.datum)
    let arrangement ← Arrangement.make p s.parts (s.appliedRules ++ further) c
    let text ← Failure.ofNumber arrangement.report
    return ⟨r.show text arrangement.datum, true⟩

def slots (r : Request) (s : Session) (c : Catalog) : Except Failure Finish :=
  withProgression r s c fun p =>
    let t := Timeline.ofProgression p
    .ok ⟨r.show t.slotReport (.object [("slots", t.slotData)]), true⟩

def catalog (r : Request) (c : Catalog) : Finish :=
  let genre := r.text? .genre
  ⟨r.show (c.listing genre) (c.listingData genre), true⟩

def Request.carryOut (r : Request) (s : Session) (c : Catalog) (chance : Int) : Except Failure Finish :=
  match r.verb with
  | .bass => bass r s c chance
  | .pipeline => pipeline r s c
  | .lead => .ok (lead r s c)
  | .slots => slots r s c
  | .catalog => .ok (catalog r c)

/-! ### Outcomes -/

/-- What arguments lead to, with the files at hand and a catalog. -/
def run (arguments : List String) (reader : Session.Reader) (c : Catalog) (chance : Int) : Outcome :=
  match Request.ofArguments arguments with
  | .error .help => .usage true
  | .error (.misuse verb misuse) => .misuse verb misuse
  | .ok none => .usage false
  | .ok (some r) =>
    match r.session reader with
    | .error fault => .noSession fault
    | .ok s =>
      match r.carryOut s c chance with
      | .error failure => .failed failure
      | .ok finish => .finished finish

def programName : String := "riffline"

def usageText : String :=
  s!"usage: {programName} [-h] COMMAND ...\n\ncommands: "
    ++ ", ".intercalate (Verb.all.map Verb.word) ++ "\n"

/-- The line that tells a misuse. What is left over is a matter of the command line as a whole. -/
def complaint (verb : Option Verb) (m : Misuse) : String :=
  let program := match verb with
    | some v => programName ++ " " ++ v.word
    | none => programName
  s!"{program}: error: {m.message}"

namespace Outcome

def output : Outcome → String
  | usage _ => usageText
  | misuse .. => ""
  | noSession fault => if fault.isTold then s!"Error: {fault.message}\n" else ""
  | failed _ => ""
  | finished f => f.text ++ "\n"

def complaint : Outcome → String
  | misuse verb m => Command.complaint verb m ++ "\n"
  | noSession fault => if fault.isTold then "" else fault.message ++ "\n"
  | failed failure => failure.message ++ "\n"
  | _ => ""

def exitStatus : Outcome → Nat
  | usage asked => if asked then 0 else 2
  | misuse .. => 2
  | noSession _ => 1
  | failed _ => 1
  | finished f => if f.accepted then 0 else 1

end Outcome

end Ostinato.Command
