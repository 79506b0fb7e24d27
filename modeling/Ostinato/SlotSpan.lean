import Ostinato.Slot
import Ostinato.Timeline

/-!
# Slot spans

Where a slot lies on a timeline: its beats, and the chords that are current and next there. Slots that
point outside the timeline have no span.
-/

namespace Ostinato

structure SlotSpan where
  specificity : Nat
  startBeat : Nat
  endBeat : Int
  currentChord : Nat
  nextChord : Nat
deriving DecidableEq, Repr

namespace Slot

/-- The span of a slot. A transition starts with its destination chord and lasts for `length`. -/
def span? (s : Slot) (t : Timeline) (length : Amount) : Except NumberFault (Option SlotSpan) :=
  match s with
  | global => .ok (some ⟨s.specificity, 1, t.totalBeats, 0, 1⟩)
  | bar i =>
    .ok (t.bars[i]?.map fun b => ⟨s.specificity, b.startBeat, b.endBeat, b.chordIndex, b.chordIndex + 1⟩)
  | chord i =>
    .ok (t.boundaries[i]?.map fun b => ⟨s.specificity, b.startBeat, b.endBeat, i, i + 1⟩)
  | transition origin destination =>
    match t.boundaries[origin]?, t.boundaries[destination]? with
    | some _, some b =>
      length.truncate.map fun beats =>
        some ⟨s.specificity, b.startBeat, b.startBeat + beats - 1, origin, destination⟩
    | _, _ => .ok none
  | lastChord =>
    .ok (t.boundaries.getLast?.map fun b =>
      ⟨s.specificity, b.startBeat, b.endBeat, b.chordIndex, b.chordIndex⟩)

/-- The length of a transition where no rule sets one: a bar. -/
def usualLength : Amount := .whole beatsPerBar

end Slot

namespace Timeline

/-- All slots of a timeline: the global one, the bars, the chords, the changes between neighbours, and
the last chord. -/
def slots (t : Timeline) : List Slot :=
  let chords := t.boundaries.length
  .global :: t.bars.map (fun b => .bar b.index) ++ (List.range chords).map .chord
    ++ (List.range (chords - 1)).map (fun i => .transition i (i + 1))
    ++ (if chords = 0 then [] else [.lastChord])

end Timeline

end Ostinato
