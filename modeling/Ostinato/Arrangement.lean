import Ostinato.BindingSet
import Ostinato.Catalog.Basic
import Ostinato.NoteEvent
import Ostinato.Register
import Ostinato.SlotSpan
import Ostinato.Walk

/-!
# Arrangements

An arrangement is what the parts play on the timeline of a progression. For each part the bound rules
are ordered by the specificity of their slots, and a beat belongs to the most specific rules that have
an event on it.
-/

namespace Ostinato

/-! ### Engagements -/

/-- What is played at a slot. -/
inductive Figure where
  | riff (riff : Riff)
  | walk
deriving DecidableEq, Repr

/-- A bound rule with what it plays and where. -/
structure Engagement where
  applied : AppliedRule
  rule : RichRule
  figure : Figure
  span : SlotSpan
deriving DecidableEq, Repr

/-- Why a bound rule is left out. -/
inductive Omission where
  | unknownRule (rule : String)
  | unknownRiff (rule : String) (riff : Option String)
  | outsideTimeline (rule : String) (slot : Slot)
deriving DecidableEq, Repr

def Omission.message : Omission → String
  | unknownRule rule => s!"Unknown rule '{rule}' skipped"
  | unknownRiff rule riff =>
    let name := riff.getD "None"
    s!"Rule '{rule}' references unknown riff '{name}', skipped"
  | outsideTimeline rule slot => s!"Rule '{rule}' is bound to a {slot.kind} slot outside the timeline"

namespace Engagement

/-- What a rule plays, and for how long at a transition. -/
def figureOf? (c : Catalog) (r : RichRule) : Option (Figure × Amount) :=
  if r.isWalk then some (.walk, .whole r.walkLength)
  else (c.riffOf? r).map fun riff => (.riff riff, .real riff.length.val)

/-- The engagement of a bound rule, or why there is none. -/
def make (c : Catalog) (t : Timeline) (a : AppliedRule) : Except NumberFault (Except Omission Engagement) :=
  match c.richRule? a.ruleId with
  | none => .ok (.error (.unknownRule a.ruleId))
  | some rule =>
    match figureOf? c rule with
    | none => .ok (.error (.unknownRiff rule.id rule.riffId))
    | some (figure, length) =>
      (a.slot.span? t length).map fun span =>
        match span with
        | none => .error (.outsideTimeline rule.id a.slot)
        | some span => .ok ⟨a, rule, figure, span⟩

/-- Higher specificity first, then the earlier start. -/
def notAfter (e f : Engagement) : Bool :=
  decide (f.span.specificity < e.span.specificity)
    || (decide (e.span.specificity = f.span.specificity) && decide (e.span.startBeat ≤ f.span.startBeat))

end Engagement

/-- All engagements of rules, in the order in which they are played, and all omissions. -/
structure Roster where
  engagements : List Engagement
  omissions : List Omission
deriving DecidableEq, Repr

namespace Roster

def engaged : List (Except Omission Engagement) → List Engagement
  | [] => []
  | .ok e :: rest => e :: engaged rest
  | .error _ :: rest => engaged rest

def omitted : List (Except Omission Engagement) → List Omission
  | [] => []
  | .ok _ :: rest => omitted rest
  | .error o :: rest => o :: omitted rest

/-- The roster of a part. Rules that are equal in order keep the order in which they were bound. -/
def make (c : Catalog) (t : Timeline) (partId : String) (rules : List AppliedRule) :
    Except NumberFault Roster := do
  let outcomes ← (rules.filter (·.appliesTo partId)).mapM (Engagement.make c t)
  return ⟨(engaged outcomes).mergeSort Engagement.notAfter, omitted outcomes⟩

end Roster

/-! ### Performances -/

/-- One playing of a figure: the context that it is worked out in, its first beat, and the chord that
sounds where no chord of the timeline does. -/
structure Performance where
  engagement : Engagement
  context : PitchContext
  startBeat : Nat
  fallbackChord : Nat
deriving DecidableEq, Repr

namespace Engagement

/-- A global figure is played once for each bar; any other one once. -/
def performances (t : Timeline) (e : Engagement) : List Performance :=
  if e.applied.slot = .global then
    t.bars.map fun b =>
      ⟨e, ⟨t, b.chordIndex, t.nextChordIndex b.chordIndex⟩, b.startBeat, b.chordIndex⟩
  else
    let next := if e.span.nextChord < t.boundaries.length then e.span.nextChord else e.span.currentChord
    [⟨e, ⟨t, e.span.currentChord, next⟩, e.span.startBeat, e.span.currentChord⟩]

end Engagement

namespace Performance

/-- The riff of a performance; a walk is worked out in its context. -/
def riff (p : Performance) : Except Failure Riff :=
  match p.engagement.figure with
  | .riff riff => .ok riff
  | .walk => p.engagement.rule.resolveWalk
      ((p.engagement.applied.parameters.getD []).map fun v => (v.1, v.2.datum)) p.context

def events (p : Performance) : Except Failure (List PlacedEvent) := do
  Failure.ofNumber ((← p.riff).place (.whole p.startBeat))

end Performance

/-! ### Notes -/

/-- The context that an event sounds in: the chord of the beat it falls on. -/
def soundingContext (t : Timeline) (fallback : Nat) (beat : Binary64) : PitchContext :=
  let chord := (t.chordIndexAt? (.real beat)).getD fallback
  ⟨t, chord, t.nextChordIndex chord⟩

def PlacedEvent.note (e : PlacedEvent) (context : PitchContext) (register : String) (part : Part) :
    Except NumberFault NoteEvent :=
  (e.pitchRef.resolve context).map fun pitch =>
    ⟨e.startBeat, e.duration, pitch.degree, Register.octave register, part.id, part.name⟩

/-- What has been played so far: the specificity that owns each beat, and the notes. -/
structure Score where
  owners : List (Binary64 × Nat)
  notes : List NoteEvent
deriving DecidableEq, Repr

namespace Score

def empty : Score := ⟨[], []⟩

def owner? (s : Score) (beat : Binary64) : Option Nat :=
  (s.owners.find? fun o => o.1 == beat).map (·.2)

/-- Whether an event of some specificity is played on a beat: not if a higher one owns the beat. -/
def admits (s : Score) (beat : Binary64) (specificity : Nat) : Bool :=
  match s.owner? beat with
  | some owner => decide (owner ≤ specificity)
  | none => true

/-- Plays a placed event of a performance, if its beat is not owned by a more specific rule. -/
def play (t : Timeline) (part : Part) (p : Performance) (s : Score) (e : PlacedEvent) :
    Except Failure Score :=
  let specificity := p.engagement.span.specificity
  if s.admits e.startBeat specificity then do
    let register := Register.choose p.engagement.applied part (some p.engagement.rule)
    let note ← Failure.ofNumber
      (e.note (soundingContext t p.fallbackChord e.startBeat) register part)
    return ⟨(e.startBeat, specificity) :: s.owners, s.notes ++ [note]⟩
  else .ok s

def perform (t : Timeline) (part : Part) (s : Score) (p : Performance) : Except Failure Score := do
  (← p.events).foldlM (play t part p) s

/-- The notes in the order of their beats; notes on one beat stay in the order of playing. -/
def inOrder (s : Score) : List NoteEvent :=
  s.notes.mergeSort fun a b => a.startBeat.notAfter b.startBeat

end Score

/-! ### Voices -/

/-- A part with its notes. -/
structure Voice where
  part : Part
  notes : List NoteEvent
deriving DecidableEq, Repr

/-- The voice of a part, and the rules that were left out. -/
def Voice.make (c : Catalog) (t : Timeline) (rules : List AppliedRule) (part : Part) :
    Except Failure (Voice × List Omission) := do
  let roster ← Failure.ofNumber (Roster.make c t part.id rules)
  let score ← (roster.engagements.flatMap (·.performances t)).foldlM (Score.perform t part) .empty
  return (⟨part, score.inOrder⟩, roster.omissions)

structure Arrangement where
  timeline : Timeline
  voices : List Voice
  diagnostics : List String
deriving DecidableEq, Repr

namespace Arrangement

/-- What the parts play. Muted parts have no voice; each message about omissions is given once. -/
def make (p : Progression) (parts : List Part) (rules : List AppliedRule) (c : Catalog) :
    Except Failure Arrangement := do
  let timeline := Timeline.ofProgression p
  let bound := (BindingSet.ofList rules).toList
  let results ← (parts.filter fun part => !part.muted).mapM (Voice.make c timeline bound)
  return {
    timeline := timeline
    voices := results.map (·.1)
    diagnostics := ((results.flatMap (·.2)).map Omission.message).eraseDups }

def notesFor (a : Arrangement) (partId : String) : List NoteEvent :=
  match a.voices.find? fun v => v.part.id == partId with
  | some v => v.notes
  | none => []

end Arrangement

end Ostinato
