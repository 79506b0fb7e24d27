import Ostinato.Number.Decimal
import Ostinato.Record.Codec
import Ostinato.Timeline

/-!
# Note events

The notes of a part on the timeline, and the simple notes of a bass line.
-/

namespace Ostinato

structure NoteEvent where
  startBeat : Binary64
  duration : Binary64
  degree : String
  octave : Int
  partId : String
  partName : String
deriving DecidableEq, Repr

namespace NoteEvent

def startBeatField : Field Binary64 := .cased "start_beat" "startBeat" .real
def durationField : Field Binary64 := .single "duration" .real
def degreeField : Field String := .single "degree" .text
def octaveField : Field Int := .single "octave" .int
def partIdField : Field String := .cased "part_id" "partId" .text
def partNameField : Field String := .cased "part_name" "partName" .text

def read (d : Datum) : Checked NoteEvent :=
  NoteEvent.mk <$> startBeatField.required d <*> durationField.required d <*> degreeField.required d
    <*> octaveField.required d <*> partIdField.required d <*> partNameField.orDefault "" d

def fields (e : NoteEvent) : List (String × Datum) :=
  [startBeatField.entry e.startBeat, durationField.entry e.duration, degreeField.entry e.degree,
    octaveField.entry e.octave, partIdField.entry e.partId, partNameField.entry e.partName]

def title : String := "NoteEvent"

def codec : Codec NoteEvent := .record title read fields

/-- The bar that a note starts in, counted from one. -/
def barNumber (e : NoteEvent) : Except NumberFault Int :=
  match (e.startBeat.sub (.finite 1)).toRat? with
  | some q => .ok ((q / beatsPerBar).floor + 1)
  | none => .error .nanToInteger

/-- The beat within the bar that a note starts on, counted from one. -/
def beatInBar (e : NoteEvent) : Binary64 :=
  ((e.startBeat.sub (.finite 1)).floorMod beatsPerBar).add (.finite 1)

end NoteEvent

/-- A note of a bass line: one beat of a bar. -/
structure BassNote where
  bar : Int
  beat : Int
  degree : String
  octaveOffset : Int
  duration : Binary64
  explanation : String
deriving DecidableEq, Repr

namespace BassNote

def barField : Field Int := .single "bar" (.intAtLeast 1)
def beatField : Field Int := .single "beat" (.intWithin 1 4)
def degreeField : Field String := .single "degree" .text
def octaveOffsetField : Field Int := .cased "octave_offset" "octaveOffset" .int
def durationField : Field Binary64 := .single "duration" .real
def explanationField : Field String := .single "explanation" .text

def read (d : Datum) : Checked BassNote :=
  BassNote.mk <$> barField.required d <*> beatField.required d <*> degreeField.required d
    <*> octaveOffsetField.orDefault 0 d <*> durationField.orDefault (.finite 1) d
    <*> explanationField.orDefault "" d

def fields (n : BassNote) : List (String × Datum) :=
  [barField.entry n.bar, beatField.entry n.beat, degreeField.entry n.degree,
    octaveOffsetField.entry n.octaveOffset, durationField.entry n.duration,
    explanationField.entry n.explanation]

def title : String := "BassNoteEvent"

def codec : Codec BassNote := .record title read fields

end BassNote

end Ostinato
