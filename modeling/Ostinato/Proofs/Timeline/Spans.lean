import Ostinato.Proofs.Success
import Ostinato.Proofs.Timeline.Layout
import Ostinato.SlotSpan

/-!
# Spans on a timeline

A slot that has a span starts on a beat of the timeline; other than the global slot, it has a chord.
-/

namespace Ostinato

open Success

namespace Timeline

variable {p : Progression}

theorem inside_of_bar {i : Nat} {b : Bar} (h : (ofProgression p).bars[i]? = some b) :
    1 ≤ b.startBeat ∧ b.chordIndex < (ofProgression p).boundaries.length := by
  obtain ⟨-, start, -, -, chord, hchord, -⟩ := view_of_bar h
  exact ⟨by omega, (List.getElem?_eq_some_iff.mp hchord).1⟩

theorem inside_of_boundary {j : Nat} {b : ChordBoundary} (h : (ofProgression p).boundaries[j]? = some b) :
    1 ≤ b.startBeat ∧ b.chordIndex = j ∧ j < (ofProgression p).boundaries.length := by
  refine ⟨?_, (view_of_boundary h).1, (List.getElem?_eq_some_iff.mp h).1⟩
  rw [startBeat_of_boundary h]
  omega

theorem span?_bar {b : Bar} (hb : b ∈ (ofProgression p).bars) (length : Amount) :
    (Slot.bar b.index).span? (ofProgression p) length =
      .ok (some ⟨4, b.startBeat, b.endBeat, b.chordIndex, b.chordIndex + 1⟩) := by
  obtain ⟨i, hi⟩ := List.getElem?_of_mem hb
  have index : b.index = i := (view_of_bar hi).1
  rw [index, Slot.span?, hi]
  rfl

theorem span?_lastChord {n : Nat} (hn : p.chords.length = n + 1) (length : Amount) :
    ∃ b, (ofProgression p).boundaries[n]? = some b ∧
      Slot.lastChord.span? (ofProgression p) length = .ok (some ⟨1, b.startBeat, b.endBeat, n, n⟩) ∧
      (Slot.chord n).span? (ofProgression p) length =
        .ok (some ⟨3, b.startBeat, b.endBeat, n, n + 1⟩) := by
  have inside : n < (ofProgression p).boundaries.length := by
    rw [length_boundaries]
    omega
  have hb := List.getElem?_eq_getElem inside
  have index := (view_of_boundary hb).1
  have last : (ofProgression p).boundaries.getLast? = (ofProgression p).boundaries[n]? := by
    rw [List.getLast?_eq_getElem?, length_boundaries, hn, Nat.add_sub_cancel]
  refine ⟨_, hb, ?_, ?_⟩
  · rw [Slot.span?, last, hb, Option.map_some, index]
    rfl
  · rw [Slot.span?, hb]
    rfl

end Timeline

theorem Slot.inside_of_span? {p : Progression} {s : Slot} {length : Amount} {span : SlotSpan}
    (h : s.span? (.ofProgression p) length = .ok (some span)) :
    1 ≤ span.startBeat ∧
      (s ≠ .global → span.currentChord < (Timeline.ofProgression p).boundaries.length) := by
  cases s with
  | global =>
    obtain rfl := Option.some.inj (Except.ok.inj h)
    exact ⟨le_rfl, fun place => absurd rfl place⟩
  | bar i =>
    obtain ⟨b, hb, rfl⟩ := Option.map_eq_some_iff.mp (Except.ok.inj h)
    obtain ⟨start, chord⟩ := Timeline.inside_of_bar hb
    exact ⟨start, fun _ => chord⟩
  | chord j =>
    obtain ⟨b, hb, rfl⟩ := Option.map_eq_some_iff.mp (Except.ok.inj h)
    obtain ⟨start, -, chord⟩ := Timeline.inside_of_boundary hb
    exact ⟨start, fun _ => chord⟩
  | transition i j =>
    simp only [span?] at h
    split at h
    · rename_i origin destination horigin hdestination
      obtain ⟨beats, -, hspan⟩ := map_eq_ok.mp h
      obtain rfl := Option.some.inj hspan
      exact ⟨(Timeline.inside_of_boundary hdestination).1, fun _ => (Timeline.inside_of_boundary horigin).2.2⟩
    · cases h
  | lastChord =>
    obtain ⟨b, hb, rfl⟩ := Option.map_eq_some_iff.mp (Except.ok.inj h)
    rw [List.getLast?_eq_getElem?] at hb
    obtain ⟨start, index, chord⟩ := Timeline.inside_of_boundary hb
    refine ⟨start, fun _ => ?_⟩
    simp only [index, chord]

end Ostinato
