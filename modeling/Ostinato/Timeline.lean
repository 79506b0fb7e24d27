import Ostinato.Number.Amount
import Ostinato.Progression

/-!
# Timelines

A timeline spreads a progression over bars of four beats. Beats are absolute and counted from one; a
chord boundary spans all beats of one chord.
-/

namespace Ostinato

def beatsPerBar : Nat := 4

structure Bar where
  index : Nat
  chordIndex : Nat
  chordDegree : String
  startBeat : Nat
  beats : Int
deriving DecidableEq, Repr

namespace Bar

def indexField : Field Nat := .single "index" .nat
def chordIndexField : Field Nat := .cased "chord_index" "chordIndex" .nat
def chordDegreeField : Field String := .cased "chord_degree" "chordDegree" .text
def startBeatField : Field Nat := .cased "start_beat" "startBeat" (.natAtLeast 1)
def beatsField : Field Int := .cased "beats_per_bar" "beatsPerBar" .int

def read (d : Datum) : Checked Bar :=
  Bar.mk <$> indexField.required d <*> chordIndexField.required d <*> chordDegreeField.required d
    <*> startBeatField.required d <*> beatsField.orDefault beatsPerBar d

def fields (b : Bar) : List (String × Datum) :=
  [indexField.entry b.index, chordIndexField.entry b.chordIndex, chordDegreeField.entry b.chordDegree,
    startBeatField.entry b.startBeat, beatsField.entry b.beats]

def title : String := "Bar"

def codec : Codec Bar := .record title read fields

def endBeat (b : Bar) : Int := b.startBeat + b.beats - 1

end Bar

/-- The beats of one chord. -/
structure ChordBoundary where
  barIndex : Nat
  chordIndex : Nat
  chordDegree : String
  startBeat : Nat
  endBeat : Nat
deriving DecidableEq, Repr

namespace ChordBoundary

def barIndexField : Field Nat := .cased "bar_index" "barIndex" .nat
def chordIndexField : Field Nat := .cased "chord_index" "chordIndex" .nat
def chordDegreeField : Field String := .cased "chord_degree" "chordDegree" .text
def startBeatField : Field Nat := .cased "start_beat" "startBeat" (.natAtLeast 1)
def endBeatField : Field Nat := .cased "end_beat" "endBeat" (.natAtLeast 1)

def read (d : Datum) : Checked ChordBoundary :=
  ChordBoundary.mk <$> barIndexField.required d <*> chordIndexField.required d
    <*> chordDegreeField.required d <*> startBeatField.required d <*> endBeatField.required d

def fields (b : ChordBoundary) : List (String × Datum) :=
  [barIndexField.entry b.barIndex, chordIndexField.entry b.chordIndex,
    chordDegreeField.entry b.chordDegree, startBeatField.entry b.startBeat, endBeatField.entry b.endBeat]

def title : String := "ChordBoundary"

def codec : Codec ChordBoundary := .record title read fields

/-- Whether a beat lies between the first and the last beat of the chord. -/
def contains (b : ChordBoundary) (beat : Amount) : Bool :=
  beat.atLeast b.startBeat && beat.atMost b.endBeat

end ChordBoundary

/-- An item by an index that may lie outside on both sides. -/
def itemAt? {α : Type} (items : List α) (index : Int) : Option α :=
  if 0 ≤ index then items[index.toNat]? else none

structure Timeline where
  key : String
  bars : List Bar
  boundaries : List ChordBoundary
deriving DecidableEq, Repr

namespace Timeline

def keyField : Field String := .single "key" .text
def barsField : Field (List Bar) := .single "bars" (.tuple Bar.codec)
def boundariesField : Field (List ChordBoundary) :=
  .cased "chord_boundaries" "chordBoundaries" (.tuple ChordBoundary.codec)

def read (d : Datum) : Checked Timeline :=
  Timeline.mk <$> keyField.orDefault "C" d <*> barsField.orDefault [] d
    <*> boundariesField.orDefault [] d

def fields (t : Timeline) : List (String × Datum) :=
  [keyField.entry t.key, barsField.entry t.bars, boundariesField.entry t.boundaries]

def title : String := "Timeline"

def codec : Codec Timeline := .record title read fields

/-! ### Construction -/

/-- The first beat of a bar. -/
def firstBeat (barIndex : Nat) : Nat := beatsPerBar * barIndex + 1

/-- The bars of chords, from a chord and a bar on. -/
def barsFrom (chordIndex barIndex : Nat) : List Chord → List Bar
  | [] => []
  | c :: rest =>
    (List.range c.held.val).map (fun i =>
      ⟨barIndex + i, chordIndex, c.root, firstBeat (barIndex + i), beatsPerBar⟩)
      ++ barsFrom (chordIndex + 1) (barIndex + c.held.val) rest

/-- The boundaries of chords, from a chord and a bar on. -/
def boundariesFrom (chordIndex barIndex : Nat) : List Chord → List ChordBoundary
  | [] => []
  | c :: rest =>
    ⟨barIndex, chordIndex, c.root, firstBeat barIndex, firstBeat (barIndex + c.held.val) - 1⟩
      :: boundariesFrom (chordIndex + 1) (barIndex + c.held.val) rest

/-- The timeline of a progression: its chords one after another, from beat one on. -/
def ofProgression (p : Progression) : Timeline :=
  ⟨p.key, barsFrom 0 0 p.chords, boundariesFrom 0 0 p.chords⟩

/-! ### Chords by index and by beat -/

def totalBeats (t : Timeline) : Nat := t.bars.length * beatsPerBar

/-- The degree of a chord, if the index is inside the timeline. -/
def chordDegree? (t : Timeline) (chordIndex : Int) : Option String :=
  (itemAt? t.boundaries chordIndex).map (·.chordDegree)

/-- The index of the chord whose beats include a beat. -/
def chordIndexAt? (t : Timeline) (beat : Amount) : Option Nat :=
  (t.boundaries.find? fun b => b.contains beat).map (·.chordIndex)

/-- The next chord, or the same one where no chord follows. -/
def nextChordIndex (t : Timeline) (chordIndex : Int) : Int :=
  if chordIndex + 1 < t.boundaries.length then chordIndex + 1 else chordIndex

end Timeline

end Ostinato
