import Ostinato.Harmony.Degree
import Ostinato.Riff
import Ostinato.Timeline

/-!
# Pitch contexts

A pitch reference sounds in a context: a timeline with a current and a next chord. References that lead
outside the timeline sound as the key root.
-/

namespace Ostinato

structure PitchContext where
  timeline : Timeline
  currentChord : Int
  nextChord : Int
deriving DecidableEq, Repr

namespace PitchContext

/-- The pitch of the root of a chord, if the index is inside the timeline. -/
def chordPitch? (c : PitchContext) (chordIndex : Int) : Except NumberFault (Option PitchClass) :=
  match c.timeline.chordDegree? chordIndex with
  | some degree => (degreePitch degree).map some
  | none => .ok none

end PitchContext

/-- The semitones from the chord root to a tone of the chord: third and fifth, or the root itself. -/
def chordToneInterval (hint : String) : Int :=
  if hint = "3" then 4 else if hint = "5" then 7 else 0

namespace PitchRef

/-- The pitch of a chord, unless the hint is a degree of the key, which is then the pitch. -/
def hintedPitch? (hint : Option String) (context : PitchContext) (chordIndex : Int) :
    Except NumberFault (Option PitchClass) :=
  match hint with
  | some degree =>
    if isDegreeLabel degree then (degreePitch degree).map some else context.chordPitch? chordIndex
  | none => context.chordPitch? chordIndex

/-- The pitch that the offset of a reference is added to. -/
def base (r : PitchRef) (context : PitchContext) : Except NumberFault Int :=
  match r.basis with
  | .keyRoot => .ok 0
  | .currentChord =>
    (hintedPitch? r.degreeHint context context.currentChord).map fun p => ((p.getD .keyRoot).val : Int)
  | .nextChord =>
    (hintedPitch? r.degreeHint context context.nextChord).map fun p => ((p.getD .keyRoot).val : Int)
  | .chordTone =>
    (context.chordPitch? context.currentChord).map fun p =>
      match p with
      | some root => (root.val : Int) + chordToneInterval (r.degreeHint.getD "")
      | none => 0

def resolve (r : PitchRef) (context : PitchContext) : Except NumberFault PitchClass :=
  (r.base context).map fun n => .ofInt (n + r.offset)

end PitchRef

end Ostinato
