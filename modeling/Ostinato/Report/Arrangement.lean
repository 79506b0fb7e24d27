import Ostinato.Arrangement

/-!
# Arrangement reports

The timeline of an arrangement and the notes of each voice, as lines of text and as data.
-/

namespace Ostinato

namespace Report

def width : Nat := 60

def doubleRule : String := String.ofList (List.replicate width '=')

def singleRule : String := String.ofList (List.replicate width '-')

/-- A title between rules, and an empty line. -/
def banner (title : String) : List String := [doubleRule, title, doubleRule, ""]

def lines (ls : List String) : String := "\n".intercalate ls

end Report

def Bar.line (b : Bar) : String :=
  s!"Bar {b.index + 1} (beats {b.startBeat}-{b.endBeat}): {b.chordDegree}"

def NoteEvent.line (e : NoteEvent) : Except NumberFault String :=
  e.barNumber.map fun bar =>
    let plural := if e.duration.same (.finite 1) then "" else "s"
    s!"  Beat {e.startBeat.brief} (Bar {bar}, Beat {e.beatInBar.brief}): {e.degree} "
      ++ s!"(octave {e.octave}) [duration: {e.duration.brief} beat{plural}]"

def Voice.lines (v : Voice) : Except NumberFault (List String) := do
  let heading := ["", s!"Part: {v.part.name} ({v.part.id})", Report.singleRule]
  if v.notes.isEmpty then return heading ++ ["  (no events)"]
  else return heading ++ (← v.notes.mapM NoteEvent.line)

namespace Arrangement

/-- The report of an arrangement; a note at no finite beat has no bar. -/
def report (a : Arrangement) : Except NumberFault String := do
  let voices ← a.voices.mapM Voice.lines
  return Report.lines (Report.banner "RESOLVED NOTE EVENTS"
    ++ [s!"Key: {a.timeline.key}", s!"Total Bars: {a.timeline.bars.length}", "", "Timeline Structure:",
      Report.singleRule]
    ++ a.timeline.bars.map Bar.line ++ [""] ++ voices.flatten
    ++ (if a.diagnostics.isEmpty then [] else ["", "Diagnostics:"] ++ a.diagnostics.map ("  ! " ++ ·))
    ++ ["", Report.doubleRule])

def datum (a : Arrangement) : Datum := .object [
  ("timeline", Timeline.codec.encode a.timeline),
  ("noteEvents", .list (a.voices.map fun v => .object [
    ("part", Part.codec.encode v.part),
    ("events", .list (v.notes.map NoteEvent.codec.encode))])),
  ("diagnostics", .texts a.diagnostics)]

end Arrangement

end Ostinato
