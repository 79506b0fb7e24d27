import Ostinato.Failure
import Ostinato.PitchContext
import Ostinato.RichRule

/-!
# Walks

A walk leads in steps from the root of one chord to the root of another. Its tones are worked out for
the chords at hand and become a riff like any other, with the tones as degrees of the key.
-/

namespace Ostinato

/-! ### Parameters -/

/-- Where a walk ends. -/
inductive WalkTarget where
  | nextChordRoot
  | currentChordRoot
deriving DecidableEq, Repr

namespace WalkTarget

def all : List WalkTarget := [nextChordRoot, currentChordRoot]

def word : WalkTarget → String
  | nextChordRoot => "nextChordRoot"
  | currentChordRoot => "currentChordRoot"

def codec : Codec WalkTarget := .word .notOption all word

end WalkTarget

/-- The way that is asked for; `auto` is the shorter one. -/
inductive WalkDirection where
  | auto
  | up
  | down
deriving DecidableEq, Repr

namespace WalkDirection

def all : List WalkDirection := [auto, up, down]

def word : WalkDirection → String
  | auto => "auto"
  | up => "up"
  | down => "down"

def codec : Codec WalkDirection := .word .notOption all word

end WalkDirection

/-- A number of walk steps. -/
abbrev StepCount := { n : Int // 1 ≤ n ∧ n ≤ 5 }

structure WalkParameters where
  target : WalkTarget
  steps : StepCount
  direction : WalkDirection
  approach : Approach
  register : String
  genreProfile : String
deriving DecidableEq, Repr

namespace WalkParameters

def targetField : Field WalkTarget := .single "target" WalkTarget.codec
def stepsField : Field StepCount := .single "steps" (.intBetween 1 5)
def directionField : Field WalkDirection := .single "direction" WalkDirection.codec
def approachField : Field Approach := .cased "approach_strategy" "approachStrategy" Approach.codec
def registerField : Field String := ⟨["register", "register_"], "register", .text⟩
def genreProfileField : Field String := .cased "genre_profile" "genreProfile" .text

def read (d : Datum) : Checked WalkParameters :=
  WalkParameters.mk <$> targetField.orDefault .nextChordRoot d <*> stepsField.orDefault ⟨2, by decide⟩ d
    <*> directionField.orDefault .auto d <*> approachField.orDefault .chromatic d
    <*> registerField.orDefault "low" d <*> genreProfileField.orDefault "custom" d

def fields (p : WalkParameters) : List (String × Datum) :=
  [targetField.entry p.target, stepsField.entry p.steps, directionField.entry p.direction,
    approachField.entry p.approach, registerField.entry p.register,
    genreProfileField.entry p.genreProfile]

def title : String := "WalkParameters"

def codec : Codec WalkParameters := .record title read fields

def ofValues (values : List (String × Datum)) : Except Rejection WalkParameters :=
  (codec.decode (.object values)).orReject title

end WalkParameters

namespace RichRule

def defaults (r : RichRule) : List (String × Datum) := r.parameters.map fun p => (p.1, p.2.default.datum)

/-- The last value that is given for a name and that the parameter accepts. -/
def chosen? (spec : ParameterSpec) (name : String) (values : List (String × Datum)) : Option Datum :=
  (values.reverse.find? fun v => v.1 == name && spec.accepts v.2).map (·.2)

/-- The values of all parameters: the given ones that are accepted, and defaults for the others. -/
def merged (r : RichRule) (values : List (String × Datum)) : List (String × Datum) :=
  r.parameters.map fun p => (p.1, (chosen? p.2 p.1 values).getD p.2.default.datum)

def defaultWalkParameters (r : RichRule) : Except Rejection WalkParameters :=
  WalkParameters.ofValues r.defaults

/-- The walk parameters that result from given values. -/
def walkParameters (r : RichRule) (values : List (String × Datum)) : Except Rejection WalkParameters :=
  WalkParameters.ofValues (r.merged values)

end RichRule

/-! ### Directions -/

inductive Direction where
  | up
  | down
deriving DecidableEq, Repr

namespace Direction

def word : Direction → String
  | up => "up"
  | down => "down"

/-- The direction that a word names; only `up` leads upwards. -/
def ofWord (word : String) : Direction := if word = "up" then up else down

/-- The semitones from one pitch to another along a direction. -/
def distance (d : Direction) (start target : PitchClass) : Nat :=
  match d with
  | up => (target - start).val
  | down => (start - target).val

def move (d : Direction) (start : PitchClass) (semitones : Int) : PitchClass :=
  match d with
  | up => .ofInt (start.val + semitones)
  | down => .ofInt (start.val - semitones)

/-- The shorter way between two pitches; up where both are equally long. -/
def shorter (start target : PitchClass) : Direction :=
  if up.distance start target ≤ down.distance start target then up else down

end Direction

def chooseDirection (start target : String) : Except NumberFault Direction := do
  return Direction.shorter (← degreePitch start) (← degreePitch target)

/-! ### Tones -/

/-- Whether the tones of a walk are brought onto the major scale. -/
def staysInScale (profile : GenreProfile) (chromatic : Bool) : Bool :=
  profile.preferredApproach == .diatonic && !chromatic

/-- A pitch, or its nearest scale tone. -/
def snapIf (snaps : Bool) (p : PitchClass) : PitchClass := if snaps then p.snap else p

/-- The semitones of a walk in a direction; a walk to the pitch it starts from is an octave long. -/
def walkDistance (d : Direction) (start target : PitchClass) : Nat :=
  let n := d.distance start target
  if n = 0 then 12 else n

/-- The semitones that are travelled up to each step. The whole distance is divided evenly among the
steps and the approach tone; parts of a semitone are rounded. -/
def travelled (distance : Nat) (steps : Int) : Except NumberFault (List Int) := do
  let size ← Binary64.quotient distance (steps + 1)
  (List.range steps.toNat).mapM fun (i : Nat) => (size.mul (.ofInt (i + 1))).roundHalfUp

/-- The tones between the start and the approach tone. -/
def walkPitches (d : Direction) (start target : PitchClass) (steps : Int) (snaps : Bool) :
    Except NumberFault (List PitchClass) := do
  let moves ← travelled (walkDistance d start target) steps
  return moves.map fun n => snapIf snaps (d.move start n)

/-- The degrees between the start and the approach tone. -/
def walkSteps (start target : String) (steps : Int) (d : Direction) (snaps : Bool) :
    Except NumberFault (List String) := do
  let pitches ← walkPitches d (← degreePitch start) (← degreePitch target) steps snaps
  return pitches.map (·.degree)

/-- The pitch for a step beyond the generated ones, on a line from start to target. The line is drawn
on the numbers of semitones above the key root, and `index` counts from zero. -/
def interpolatedPitch (start target : PitchClass) (index steps : Int) : Except NumberFault PitchClass := do
  let progress ← Binary64.quotient (index + 1) (steps + 1)
  let rise := (Binary64.ofInt ((target.val : Int) - start.val)).mul progress
  return .ofInt (← ((Binary64.ofInt start.val).add rise).roundHalfUp)

def interpolateStep (start target : String) (index steps : Int) : Except NumberFault String := do
  return (← interpolatedPitch (← degreePitch start) (← degreePitch target) index steps).degree

/-- The tone a semitone before the target. -/
def approachPitch (target : PitchClass) (d : Direction) (snaps : Bool) : PitchClass :=
  snapIf snaps (match d with
    | .up => target - PitchClass.semitone
    | .down => target + PitchClass.semitone)

def approachTone (target : String) (d : Direction) (snaps : Bool) : Except NumberFault String := do
  return (approachPitch (← degreePitch target) d snaps).degree

/-! ### The walk as a riff -/

/-- The degree of a chord that a walk starts or ends on: the key root where there is none. -/
def anchorDegree (t : Timeline) (chordIndex : Int) : String :=
  match t.chordDegree? chordIndex with
  | some degree => if degree = "" then "I" else degree
  | none => "I"

/-- A walk that is worked out for a context. -/
structure WalkPlan where
  start : String
  target : String
  direction : Direction
  steps : Int
  snaps : Bool
  notes : List String
deriving DecidableEq, Repr

namespace RichRule

/-- The profile for a genre, or the one for all other genres. -/
def walkProfile (r : RichRule) (genre : String) : GenreProfile :=
  match r.profile? genre with
  | some profile => profile
  | none => (r.profile? "custom").getD .unbiased

end RichRule

namespace WalkPlan

/-- Works out anchors, direction and steps. -/
def make (r : RichRule) (p : WalkParameters) (context : PitchContext) : Except NumberFault WalkPlan := do
  let start := anchorDegree context.timeline context.currentChord
  let target := match p.target with
    | .nextChordRoot => anchorDegree context.timeline context.nextChord
    | .currentChordRoot => start
  let direction ← match p.direction with
    | .up => pure Direction.up
    | .down => pure Direction.down
    | .auto => chooseDirection start target
  let snaps := staysInScale (r.walkProfile p.genreProfile) (p.approach == .chromatic)
  let notes ← walkSteps start target p.steps.val direction snaps
  return ⟨start, target, direction, p.steps.val, snaps, notes⟩

def degree (w : WalkPlan) (e : TemplateEvent) : Except NumberFault String :=
  match e.role with
  | .startAnchor => .ok w.start
  | .targetAnchor => .ok w.target
  | .approachTone => approachTone w.target w.direction w.snaps
  | .walkStep =>
    let index := e.stepIndex.getD 1 - 1
    match itemAt? w.notes index with
    | some note => .ok note
    | none => interpolateStep w.start w.target index w.steps

/-- A beat of a template, counted from the start of the walk. -/
def beatOf (e : TemplateEvent) : Int := e.barOffset * beatsPerBar + e.beat.val

/-- The riff event of a template event: one beat long, with the degree as its hint. -/
def event (w : WalkPlan) (e : TemplateEvent) : Except Failure RiffEvent := do
  let degree ← Failure.ofNumber (w.degree e)
  let basis := if e.noteSource = some "targetChordRoot" then PitchBasis.nextChord else .currentChord
  let start ← Failure.ofRecord
    ((((Codec.realFrom 1).decode (.int (beatOf e))).under (.key "start_beat")).orReject RiffEvent.title)
  return ⟨start, Duration.beat, ⟨basis, 0, some degree⟩, none⟩

end WalkPlan

namespace RichRule

/-- The length of a walk in beats: that of its template, or a bar. -/
def walkLength (r : RichRule) : Int :=
  match r.template with
  | some template => template.length.val
  | none => beatsPerBar

def templateEvents (r : RichRule) : List TemplateEvent :=
  match r.template with
  | some template => template.events
  | none => []

/-- The riff of a walk with given parameters in a context. -/
def walkRiff (r : RichRule) (p : WalkParameters) (context : PitchContext) : Except Failure Riff := do
  let plan ← Failure.ofNumber (WalkPlan.make r p context)
  let events ← r.templateEvents.mapM plan.event
  let length ← Failure.ofRecord
    ((((Codec.realAbove 0).decode (.int r.walkLength)).under (.key "length_beats")).orReject Riff.title)
  return {
    id := r.id ++ "_resolved"
    length := length
    events := events
    explanation := s!"Walk from {plan.start} to {plan.target} using {plan.steps} steps "
      ++ s!"({plan.direction.word}, {p.register} register)" }

/-- The riff of a walk with given values in a context. -/
def resolveWalk (r : RichRule) (values : List (String × Datum)) (context : PitchContext) :
    Except Failure Riff := do
  r.walkRiff (← Failure.ofRecord (r.walkParameters values)) context

end RichRule

end Ostinato
