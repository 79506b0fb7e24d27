import Ostinato.BassLine
import Ostinato.LeadLine

/-!
# Reports of lines

Bass lines and the material of lead lines, as lines of text and as data.
-/

namespace Ostinato

namespace BassLine

def Trace.lines (t : Trace) : List String :=
  s!"  Bar {t.bar} Beat {t.beat}:" :: t.rules.map fun r => s!"    - {r.id} ({r.role.word})"

/-- The notes of a line, the rules behind them and the warnings, or why there is no line. -/
def report (l : BassLine) : String :=
  "\n".intercalate (
    if !l.verdict.isValid then "Cannot generate bass line:" :: l.verdict.errors.map ("  - " ++ ·)
    else
      (if l.notes.isEmpty then ["No notes generated."]
        else l.notes.map fun n => s!"Bar {n.bar} Beat {n.beat}: {n.degree}")
      ++ (if l.traces.isEmpty then [] else ["", "Applied rules:"] ++ l.traces.flatMap Trace.lines)
      ++ (if l.verdict.warnings.isEmpty then []
        else ["", "Warnings:"] ++ l.verdict.warnings.map ("  ! " ++ ·)))

def Trace.datum (t : Trace) : Datum := .object [
  ("bar", .int t.bar),
  ("beat", .int t.beat),
  ("rules", .texts (t.rules.map (·.id)))]

def datum (l : BassLine) : Datum := .object [
  ("isValid", .bool l.verdict.isValid),
  ("errors", .texts l.verdict.errors),
  ("warnings", .texts l.verdict.warnings),
  ("noteEvents", .list (l.notes.map BassNote.codec.encode)),
  ("appliedRules", .list (l.traces.map Trace.datum))]

end BassLine

namespace LeadLine

def lickLines (l : Lick) : List String :=
  [s!"  - {l.id}: {l.explanation}", "    Notes: " ++ ", ".intercalate (l.notes.map (·.degree))]

/-- The rules, licks and scales for a line, or why there is no line. -/
def report (l : LeadLine) : String :=
  "\n".intercalate (
    if !l.verdict.isValid then "Cannot preview lead line:" :: l.verdict.errors.map ("  - " ++ ·)
    else
      [s!"Found {l.rules.length} applicable lead rules:"]
      ++ l.rules.map (fun r => s!"  - {r.id} ({r.role.word}): {r.action}")
      ++ [s!"Found {l.licks.length} applicable licks:"] ++ l.licks.flatMap lickLines
      ++ (if l.scales.isEmpty then []
        else "Scales:" :: l.scales.map fun s => s!"  - {s.id}: " ++ " ".intercalate s.degrees))

def datum (l : LeadLine) : Datum := .object [
  ("isValid", .bool l.verdict.isValid),
  ("errors", .texts l.verdict.errors),
  ("rules", .texts (l.rules.map (·.id))),
  ("licks", .list (l.licks.map Lick.codec.encode)),
  ("scales", .texts (l.scales.map (·.id)))]

end LeadLine

end Ostinato
