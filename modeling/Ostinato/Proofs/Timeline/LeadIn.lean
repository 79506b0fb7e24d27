import Ostinato.Proofs.Timeline.Layout
import Ostinato.SlotSpan

/-!
# Timelines after a lead-in

Chords in front of a progression move all that follows: the chords by their number, the bars by those
that they are held for, the beats by four times as many. What is found behind them is what was found
before, moved by as much.
-/

namespace Ostinato

/-! ### Delays -/

/-- By how many chords and bars a progression comes later. -/
structure Delay where
  chords : Nat
  bars : Nat
deriving DecidableEq, Repr

def Delay.of (leadIn : List Chord) : Delay := ⟨leadIn.length, barsBefore leadIn leadIn.length⟩

def Delay.beats (d : Delay) : Nat := beatsPerBar * d.bars

def Progression.after (leadIn : List Chord) (p : Progression) : Progression :=
  { p with chords := leadIn ++ p.chords }

variable (d : Delay)

def Bar.later (b : Bar) : Bar :=
  ⟨b.index + d.bars, b.chordIndex + d.chords, b.chordDegree, b.startBeat + d.beats, b.beats⟩

def ChordBoundary.later (b : ChordBoundary) : ChordBoundary :=
  ⟨b.barIndex + d.bars, b.chordIndex + d.chords, b.chordDegree, b.startBeat + d.beats, b.endBeat + d.beats⟩

/-- The same place, counted from further ahead. The global slot is no place and stays what it is. -/
def Slot.later : Slot → Slot
  | .global => .global
  | .bar i => .bar (i + d.bars)
  | .chord j => .chord (j + d.chords)
  | .transition i j => .transition (i + d.chords) (j + d.chords)
  | .lastChord => .lastChord

def SlotSpan.later (s : SlotSpan) : SlotSpan :=
  ⟨s.specificity, s.startBeat + d.beats, s.endBeat + d.beats, s.currentChord + d.chords,
    s.nextChord + d.chords⟩

theorem Slot.later_inj {s s' : Slot} : s.later d = s'.later d ↔ s = s' := by
  cases s <;> cases s' <;> simp [later]

theorem Slot.kind_later (s : Slot) : (s.later d).kind = s.kind := by cases s <;> rfl

namespace Timeline

/-! ### Bars and boundaries -/

theorem firstBeat_add (i : Nat) : firstBeat (i + d.bars) = firstBeat i + d.beats := by
  simp only [firstBeat, Delay.beats, Nat.mul_add]
  omega

theorem barsFrom_later (k b : Nat) (chords : List Chord) :
    barsFrom (k + d.chords) (b + d.bars) chords = (barsFrom k b chords).map (Bar.later d) := by
  induction chords generalizing k b with
  | nil => rfl
  | cons c rest ih =>
    have chord : k + d.chords + 1 = k + 1 + d.chords := by omega
    have bar (i : Nat) : b + d.bars + i = b + i + d.bars := by omega
    simp only [barsFrom, chord, bar, ih, firstBeat_add, List.map_append, List.map_map]
    rfl

theorem boundariesFrom_later (k b : Nat) (chords : List Chord) :
    boundariesFrom (k + d.chords) (b + d.bars) chords =
      (boundariesFrom k b chords).map (ChordBoundary.later d) := by
  induction chords generalizing k b with
  | nil => rfl
  | cons c rest ih =>
    have chord : k + d.chords + 1 = k + 1 + d.chords := by omega
    have bar : b + d.bars + c.held.val = b + c.held.val + d.bars := by omega
    have first : 1 ≤ firstBeat (b + c.held.val) := by
      rw [firstBeat]
      omega
    have last : firstBeat (b + c.held.val) + d.beats - 1 = firstBeat (b + c.held.val) - 1 + d.beats := by
      omega
    simp only [boundariesFrom, chord, bar, ih, firstBeat_add, last, List.map_cons, ChordBoundary.later]

theorem barsFrom_append (k b : Nat) (leadIn chords : List Chord) :
    barsFrom k b (leadIn ++ chords) = barsFrom k b leadIn ++
      barsFrom (k + leadIn.length) (b + barsBefore leadIn leadIn.length) chords := by
  induction leadIn generalizing k b with
  | nil => rfl
  | cons c rest ih =>
    have chord : k + 1 + rest.length = k + (rest.length + 1) := by omega
    simp only [List.cons_append, barsFrom, ih, List.length_cons, barsBefore_cons_succ, chord,
      Nat.add_assoc, List.append_assoc]

theorem boundariesFrom_append (k b : Nat) (leadIn chords : List Chord) :
    boundariesFrom k b (leadIn ++ chords) = boundariesFrom k b leadIn ++
      boundariesFrom (k + leadIn.length) (b + barsBefore leadIn leadIn.length) chords := by
  induction leadIn generalizing k b with
  | nil => rfl
  | cons c rest ih =>
    have chord : k + 1 + rest.length = k + (rest.length + 1) := by omega
    simp only [List.cons_append, boundariesFrom, ih, List.length_cons, barsBefore_cons_succ, chord,
      Nat.add_assoc]

variable (leadIn : List Chord) (p : Progression)

theorem bars_after : (ofProgression (p.after leadIn)).bars =
    barsFrom 0 0 leadIn ++ (ofProgression p).bars.map (Bar.later (.of leadIn)) := by
  have behind := barsFrom_later (.of leadIn) 0 0 p.chords
  have whole := barsFrom_append 0 0 leadIn p.chords
  rw [show (ofProgression (p.after leadIn)).bars = barsFrom 0 0 (leadIn ++ p.chords) from rfl, whole]
  exact congrArg _ behind

theorem boundaries_after : (ofProgression (p.after leadIn)).boundaries =
    boundariesFrom 0 0 leadIn ++ (ofProgression p).boundaries.map (ChordBoundary.later (.of leadIn)) := by
  have behind := boundariesFrom_later (.of leadIn) 0 0 p.chords
  have whole := boundariesFrom_append 0 0 leadIn p.chords
  rw [show (ofProgression (p.after leadIn)).boundaries = boundariesFrom 0 0 (leadIn ++ p.chords) from rfl,
    whole]
  exact congrArg _ behind

theorem bar_after (i : Nat) : (ofProgression (p.after leadIn)).bars[i + (Delay.of leadIn).bars]? =
    (ofProgression p).bars[i]?.map (Bar.later (.of leadIn)) := by
  have front : (barsFrom 0 0 leadIn).length = (Delay.of leadIn).bars := length_barsFrom 0 0 leadIn
  rw [bars_after, List.getElem?_append_right (by omega), front, Nat.add_sub_cancel, List.getElem?_map]

theorem boundary_after (j : Nat) :
    (ofProgression (p.after leadIn)).boundaries[j + (Delay.of leadIn).chords]? =
      (ofProgression p).boundaries[j]?.map (ChordBoundary.later (.of leadIn)) := by
  have front : (boundariesFrom 0 0 leadIn).length = (Delay.of leadIn).chords :=
    length_boundariesFrom 0 0 leadIn
  rw [boundaries_after, List.getElem?_append_right (by omega), front, Nat.add_sub_cancel,
    List.getElem?_map]

theorem length_boundaries_after : (ofProgression (p.after leadIn)).boundaries.length =
    (ofProgression p).boundaries.length + (Delay.of leadIn).chords := by
  rw [length_boundaries, length_boundaries, Progression.after, List.length_append, Nat.add_comm]
  rfl

/-! ### Chords by index and by beat -/

theorem chordDegree?_after (i : Nat) :
    (ofProgression (p.after leadIn)).chordDegree? (i + (Delay.of leadIn).chords : Nat) =
      (ofProgression p).chordDegree? i := by
  simp only [chordDegree?, itemAt?, Int.natCast_nonneg, if_true, Int.toNat_natCast, boundary_after,
    Option.map_map]
  rfl

theorem nextChordIndex_after (i : Nat) : ∃ j : Nat, (ofProgression p).nextChordIndex i = j ∧
    (ofProgression (p.after leadIn)).nextChordIndex (i + (Delay.of leadIn).chords : Nat) =
      (j + (Delay.of leadIn).chords : Nat) := by
  rw [nextChordIndex_natCast, nextChordIndex_natCast, length_boundaries_after]
  refine ⟨_, rfl, ?_⟩
  split_ifs <;> omega

theorem contains_later (b : ChordBoundary) (q : ℚ) :
    (b.later d).contains (.real (.finite (q + d.beats))) = b.contains (.real (.finite q)) := by
  rw [Bool.eq_iff_iff, contains_iff (q := q + d.beats) rfl, contains_iff (q := q) rfl]
  simp only [ChordBoundary.later, Nat.cast_add, add_le_add_iff_right]

/-- No chord of the lead-in sounds on a beat behind it. -/
theorem find?_leadIn {q : ℚ} (first : 1 ≤ q) :
    (boundariesFrom 0 0 leadIn).find? (fun b => b.contains (.real (.finite (q + (Delay.of leadIn).beats)))) =
      none := by
  rw [List.find?_eq_none]
  intro b hb
  obtain ⟨j, hj⟩ := List.getElem?_of_mem hb
  have inside : j < leadIn.length := by
    rw [← length_boundariesFrom 0 0 leadIn]
    exact (List.getElem?_eq_some_iff.mp hj).1
  have whole : (ofProgression ⟨"", "", leadIn, [], ""⟩).boundaries[j]? = some b := hj
  have last := endBeat_of_boundary whole
  have most := Nat.mul_le_mul_left beatsPerBar (barsBefore_mono leadIn (show j + 1 ≤ leadIn.length from inside))
  have before : (b.endBeat : ℚ) ≤ (Delay.of leadIn).beats := by
    rw [last]
    exact Nat.cast_le.mpr most
  rw [contains_iff (q := q + (Delay.of leadIn).beats) rfl]
  rintro ⟨-, reached⟩
  linarith

theorem chordIndexAt?_after {q : ℚ} (first : 1 ≤ q) :
    (ofProgression (p.after leadIn)).chordIndexAt? (.real (.finite (q + (Delay.of leadIn).beats))) =
      ((ofProgression p).chordIndexAt? (.real (.finite q))).map (· + (Delay.of leadIn).chords) := by
  rw [chordIndexAt?, chordIndexAt?, boundaries_after, List.find?_append, find?_leadIn leadIn first,
    Option.none_or, List.find?_map, Option.map_map, Option.map_map]
  have same : (fun b : ChordBoundary => b.contains (.real (.finite (q + (Delay.of leadIn).beats)))) ∘
      ChordBoundary.later (.of leadIn) = fun b => b.contains (.real (.finite q)) :=
    funext fun b => contains_later (.of leadIn) b q
  rw [same]
  rfl

end Timeline

/-! ### Spans -/

namespace Slot

variable {leadIn : List Chord} {p : Progression} {s : Slot}

theorem span?_after (place : s ≠ .global) (chords : p.chords ≠ []) (length : Amount) :
    (s.later (.of leadIn)).span? (.ofProgression (p.after leadIn)) length =
      (s.span? (.ofProgression p) length).map (Option.map (SlotSpan.later (.of leadIn))) := by
  cases s with
  | global => exact absurd rfl place
  | bar i =>
    simp only [later, span?, Timeline.bar_after, Except.map, Option.map_map]
    refine congrArg Except.ok (Option.map_congr fun b _ => ?_)
    simp only [Function.comp, Bar.later, SlotSpan.later, Bar.endBeat, specificity, SlotSpan.mk.injEq, true_and]
    omega
  | chord j =>
    simp only [later, span?, Timeline.boundary_after, Except.map, Option.map_map]
    refine congrArg Except.ok (Option.map_congr fun b _ => ?_)
    simp only [Function.comp, ChordBoundary.later, SlotSpan.later, specificity, SlotSpan.mk.injEq, true_and]
    omega
  | transition i j =>
    simp only [later, span?, Timeline.boundary_after]
    cases (Timeline.ofProgression p).boundaries[i]? with
    | none => rfl
    | some origin =>
      cases (Timeline.ofProgression p).boundaries[j]? with
      | none => rfl
      | some b =>
        cases length.truncate with
        | error fault => rfl
        | ok beats =>
          refine congrArg (fun s => Except.ok (some s)) ?_
          simp only [ChordBoundary.later, SlotSpan.later, specificity, SlotSpan.mk.injEq, true_and,
      and_true]
          omega
  | lastChord =>
    have some_chord : ((Timeline.ofProgression p).boundaries.map (ChordBoundary.later (.of leadIn))) ≠ [] := by
      intro none_left
      have none_of := congrArg List.length none_left
      rw [List.length_map, Timeline.length_boundaries, List.length_nil] at none_of
      exact chords (List.eq_nil_of_length_eq_zero none_of)
    have last : (Timeline.ofProgression (p.after leadIn)).boundaries.getLast? =
        (Timeline.ofProgression p).boundaries.getLast?.map (ChordBoundary.later (.of leadIn)) := by
      rw [Timeline.boundaries_after, List.getLast?_append, ← List.getLast?_map]
      cases found : ((Timeline.ofProgression p).boundaries.map (ChordBoundary.later (.of leadIn))).getLast? with
      | none => exact absurd (List.getLast?_eq_none_iff.mp found) some_chord
      | some b => rfl
    simp only [later, span?, last, Except.map, Option.map_map]
    refine congrArg Except.ok (Option.map_congr fun b _ => ?_)
    simp only [Function.comp, ChordBoundary.later, SlotSpan.later, specificity, SlotSpan.mk.injEq, true_and,
      and_true]
    omega

end Slot

end Ostinato
