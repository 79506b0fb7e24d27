import Ostinato.Number.Amount
import Ostinato.Record.Codec

/-!
# Riffs

A riff is a short figure: events at beats that are counted from its own start, each with a reference
to a pitch that the chord context decides.
-/

namespace Ostinato

/-- What a pitch reference is measured from. -/
inductive PitchBasis where
  | keyRoot
  | currentChord
  | nextChord
  | chordTone
deriving DecidableEq, Repr

namespace PitchBasis

def all : List PitchBasis := [keyRoot, currentChord, nextChord, chordTone]

def word : PitchBasis → String
  | keyRoot => "keyRoot"
  | currentChord => "currentChord"
  | nextChord => "nextChord"
  | chordTone => "chordTone"

def codec : Codec PitchBasis := .word .notOption all word

end PitchBasis

structure PitchRef where
  basis : PitchBasis
  offset : Int
  degreeHint : Option String
deriving DecidableEq, Repr

namespace PitchRef

def basisField : Field PitchBasis := .single "basis" PitchBasis.codec
def offsetField : Field Int := .single "offset" .int
def degreeHintField : Field (Option String) := .cased "degree_hint" "degreeHint" (.optional .text)

def read (d : Datum) : Checked PitchRef :=
  PitchRef.mk <$> basisField.required d <*> offsetField.orDefault 0 d
    <*> degreeHintField.orDefault none d

def fields (r : PitchRef) : List (String × Datum) :=
  [basisField.entry r.basis, offsetField.entry r.offset, degreeHintField.entry r.degreeHint]

def title : String := "PitchRef"

def codec : Codec PitchRef := .record title read fields

end PitchRef

/-- A beat counted from the start of a riff, which is beat one. -/
abbrev RiffBeat := { x : Binary64 // x.atLeastInt 1 = true }

def RiffBeat.first : RiffBeat := ⟨.finite 1, by decide⟩

/-- A length in beats. -/
abbrev Duration := { x : Binary64 // x.aboveInt 0 = true }

def Duration.beat : Duration := ⟨.finite 1, by decide⟩

structure RiffEvent where
  startBeat : RiffBeat
  duration : Duration
  pitchRef : PitchRef
  octaveStrategy : Option String
deriving DecidableEq, Repr

namespace RiffEvent

def startBeatField : Field RiffBeat := .cased "start_beat" "startBeat" (.realFrom 1)
def durationField : Field Duration := .single "duration" (.realAbove 0)
def pitchRefField : Field PitchRef := .cased "pitch_ref" "pitchRef" PitchRef.codec
def octaveStrategyField : Field (Option String) :=
  .cased "octave_strategy" "octaveStrategy" (.optional .text)

def read (d : Datum) : Checked RiffEvent :=
  RiffEvent.mk <$> startBeatField.required d <*> durationField.required d <*> pitchRefField.required d
    <*> octaveStrategyField.orDefault none d

def fields (e : RiffEvent) : List (String × Datum) :=
  [startBeatField.entry e.startBeat, durationField.entry e.duration, pitchRefField.entry e.pitchRef,
    octaveStrategyField.entry e.octaveStrategy]

def title : String := "RiffEvent"

def codec : Codec RiffEvent := .record title read fields

end RiffEvent

structure Riff where
  id : String
  length : Duration
  events : List RiffEvent
  explanation : String
deriving DecidableEq, Repr

namespace Riff

def idField : Field String := .single "id" .name
def lengthField : Field Duration := .cased "length_beats" "lengthBeats" (.realAbove 0)
def eventsField : Field (List RiffEvent) := .single "events" (.tuple RiffEvent.codec)
def explanationField : Field String := .single "explanation" .text

def read (d : Datum) : Checked Riff :=
  Riff.mk <$> idField.required d <*> lengthField.required d <*> eventsField.orDefault [] d
    <*> explanationField.orDefault "" d

def fields (r : Riff) : List (String × Datum) :=
  [idField.entry r.id, lengthField.entry r.length, eventsField.entry r.events,
    explanationField.entry r.explanation]

def title : String := "Riff"

def codec : Codec Riff := .record title read fields

end Riff

/-! ### Placement -/

/-- A riff event at an absolute beat, its pitch still open. -/
structure PlacedEvent where
  startBeat : Binary64
  duration : Binary64
  pitchRef : PitchRef
  octaveStrategy : String
deriving DecidableEq, Repr

def usualOctaveStrategy : String := "nearest"

/-- A text that is given and not empty, or a default. -/
def givenOr (default : String) (s : Option String) : String :=
  match s with
  | some text => if text = "" then default else text
  | none => default

/-- An event of a riff that starts at an absolute beat: the riff's beat one falls on that beat. -/
def RiffEvent.place (e : RiffEvent) (start : Amount) : Except NumberFault PlacedEvent :=
  start.toReal.map fun first =>
    { startBeat := (first.add e.startBeat.val).sub (.finite 1)
      duration := e.duration.val
      pitchRef := e.pitchRef
      octaveStrategy := givenOr usualOctaveStrategy e.octaveStrategy }

/-- The events of a riff that starts at an absolute beat. -/
def Riff.place (r : Riff) (start : Amount) : Except NumberFault (List PlacedEvent) :=
  r.events.mapM fun e => e.place start

end Ostinato
