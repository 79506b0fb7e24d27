import Ostinato.NoteEvent
import Ostinato.Random.Draw
import Ostinato.RuleGroups
import Ostinato.Verdict

/-!
# Bass lines

A bass line has a note on every beat of a chart. On each beat the rules that fire decide: constraints
the duration, anchors the tone, and preferences a tone that is drawn in place of it. Tones are Arabic
degrees.
-/

namespace Ostinato

namespace BassLine

/-! ### Roles -/

def mentionsFifth (r : Rule) : Bool := r.mentions "fifth" || r.mentions "5th"

/-- The duration of a note; rhythm rules allow quarter notes only, which is the usual duration. -/
def duration (constraints : List Rule) : Binary64 :=
  if constraints.any fun r => r.affects == .rhythm && r.mentions "quarter notes only" then .finite 1
  else .finite 1

/-- The tone that anchors ask for: the first one that names the root or the fifth decides. -/
def anchorTone (anchors : List Rule) (chord : String) : String :=
  let root := chordRoot chord
  let tones := anchors.filterMap fun r =>
    if r.affects != .targetTone then none
    else if r.mentions "root" then some root
    else if mentionsFifth r then some root.fifth
    else none
  (tones.headD root).arabic

def usualWeight : Binary64 := .ofRat (1 / 2)

/-- The tones that a preference offers, the fifth before the root. -/
def optionsOf (chord : String) (r : Rule) : List (String × Binary64) :=
  if r.affects != .targetTone then []
  else
    let root := chordRoot chord
    let weight := r.weight.getD usualWeight
    (if mentionsFifth r then [(root.fifth.arabic, weight)] else [])
      ++ (if r.mentions "root" then [(root.arabic, weight)] else [])

/-- All tones that preferences offer, with their weights. -/
def options (preferences : List Rule) (chord : String) : List (String × Binary64) :=
  preferences.flatMap (optionsOf chord)

/-- The sum of the weights, from left to right. -/
def totalWeight (options : List (String × Binary64)) : Binary64 :=
  options.foldl (fun sum o => sum.add o.2) (.finite 0)

/-- The first option at which the weights so far reach the amount that remains. -/
def reached? (remaining : Binary64) : List (String × Binary64) → Option String
  | [] => none
  | (degree, weight) :: rest =>
    let left := remaining.sub weight
    if left.le (.finite 0) then some degree else reached? left rest

/-- The threshold that a draw is compared with for an even pick. -/
def evenChance (randomness : Int) : Except NumberFault Binary64 := Binary64.quotient randomness 100

/-- The tone of a beat: the anchor tone, or one of the options, drawn evenly or by weight. -/
def preferredTone (preferences : List Rule) (anchor chord : String) (randomness : Int) : Draw String :=
  match options preferences chord with
  | [] => pure anchor
  | first :: others => do
    let options := first :: others
    let draw ← Draw.fraction
    let chance ← Draw.ofResult (Failure.ofNumber (evenChance randomness))
    if draw.below chance && decide (1 < options.length) then do
      let place ← Draw.below options.length
      return (options.getD place first).1
    else do
      let draw ← Draw.fraction
      let fraction ← Draw.ofResult (Failure.ofNumber draw.toReal)
      return (reached? (fraction.mul (totalWeight options)) options).getD first.1

/-! ### Lines -/

/-- The rules that took part in the decision on a beat. -/
structure Trace where
  bar : Int
  beat : Int
  rules : List Rule
deriving DecidableEq, Repr

/-- One beat of a chart, with its chord and the chord of the bar before. -/
structure Place where
  bar : Nat
  beat : Nat
  chord : String
  previous : Option String
deriving DecidableEq, Repr

def placesAfter (bar : Nat) (previous : Option String) : List String → List Place
  | [] => []
  | chord :: rest =>
    (List.range beatsPerBar).map (fun i => ⟨bar + 1, i + 1, chord, previous⟩)
      ++ placesAfter (bar + 1) (some chord) rest

def places (bars : List String) : List Place := placesAfter 0 none bars

/-- The note of a beat, and the rules behind it. -/
def noteAt (g : RuleGroups) (randomness : Int) (p : Place) : Draw (BassNote × List Rule) := do
  let firing := g.firing p.beat p.chord p.previous
  let anchor := anchorTone firing.anchors p.chord
  let degree ← preferredTone firing.preferences anchor p.chord randomness
  return ({
    bar := p.bar
    beat := p.beat
    degree := degree
    octaveOffset := 0
    duration := duration firing.constraints
    explanation := s!"Bar {p.bar} Beat {p.beat}: {degree} (chord: {p.chord})" },
    firing.anchors ++ firing.preferences)

end BassLine

structure BassLine where
  notes : List BassNote
  traces : List BassLine.Trace
  verdict : Verdict
deriving DecidableEq, Repr

namespace BassLine

def refused (v : Verdict) : BassLine := ⟨[], [], v⟩

def tracesOf (notes : List (BassNote × List Rule)) : List Trace :=
  (notes.filter fun n => !n.2.isEmpty).map fun n => ⟨n.1.bar, n.1.beat, n.2⟩

/-- The verdict on a selection together with the rules it can use. -/
def judge (s : Selection) (chart : Option Chart) (rules : List Rule) : Verdict :=
  let v := s.check chart
  let v := if rules.isEmpty then v.addError "No rules enabled" else v
  if v.isValid && (s.activeRules rules).isEmpty then
    let level := (s.level.map fun n => toString n).getD "None"
    v.addError ("No rules enabled for " ++ s.part.word ++ " / " ++ s.genre.getD "None" ++ " at level " ++ level)
  else v

/-- The bass line of a selection over its chart. Nothing is drawn where the selection is refused. -/
def make (s : Selection) (chart : Option Chart) (rules : List Rule) : Draw BassLine :=
  let verdict := judge s chart rules
  match verdict.isValid, chart with
  | true, some chart => do
    let groups := RuleGroups.make (s.activeRules rules)
    let notes ← (places chart.bars.val).mapM (noteAt groups s.randomness)
    return ⟨notes.map (·.1), tracesOf notes,
      { verdict with warnings := groups.conflicts.map (·.warning) }⟩
  | _, _ => pure (refused verdict)

end BassLine

end Ostinato
