import Mathlib.Algebra.Order.Floor.Ring
import Ostinato.Proofs.Arrangement.Arbitration
import Ostinato.Proofs.Timeline.Layout

/-!
# Sounding chords

Which chord a note sounds in. The bar of a note is the one its beat lies in, fractions of a beat included;
the chord at a beat is searched between the first and the last beat of each chord. The two agree but on
the fraction of a beat after the last beat of a chord, where the search finds none and the note sounds in
the chord that its riff or walk was started in.
-/

namespace Ostinato

open Binary64 Rounding Success

variable {p : Progression} {t : Timeline} {part : Part}

theorem Timeline.chordIndexAt?_of_beat {beat : Amount} {q : ℚ} (h : beat.value? = some q) (lower : 1 ≤ q)
    (upper : q < (ofProgression p).totalBeats + 1) :
    ∃ b c, (ofProgression p).bars[⌊(q - 1) / 4⌋₊]? = some b ∧ b.index = ⌊(q - 1) / 4⌋₊ ∧
      (ofProgression p).boundaries[b.chordIndex]? = some c ∧
      (ofProgression p).chordIndexAt? beat = if q ≤ c.endBeat then some b.chordIndex else none := by
  have start : 0 ≤ (q - 1) / 4 := by linarith
  have first := Nat.floor_le start
  have last := Nat.lt_floor_add_one ((q - 1) / 4)
  set i := ⌊(q - 1) / 4⌋₊
  have inside : i < p.totalBars := by
    rw [totalBeats_ofProgression, beatsPerBar] at upper
    have : (i : ℚ) < p.totalBars := by
      push_cast at upper
      linarith
    exact_mod_cast this
  obtain ⟨b, c, hb, hc, -, found⟩ := chordIndexAt?_of_bar h inside
    (by rw [beatsPerBar]; push_cast; linarith) (by rw [beatsPerBar]; push_cast; linarith)
  exact ⟨b, c, hb, (view_of_bar hb).1, hc, found⟩

/-- A note knows its bar, but on multiples of four above `2 ^ 53`, where one less is no other number. -/
theorem NoteEvent.barNumber_eq_ok_iff {n : NoteEvent} (h : IsStartBeat n.startBeat) {q : ℚ}
    (hq : n.startBeat.toRat? = some q) (lower : 1 ≤ q) :
    n.barNumber = .ok (⌊(q - 1) / 4⌋₊ + 1) ↔ ¬ (2 ^ 53 < q ∧ ∃ k : Int, q = 4 * k) := by
  have beat : n.startBeat = finite q := by
    cases hx : n.startBeat with
    | finite r => rw [hx] at hq; exact congrArg finite (Option.some.inj hq)
    | negativeZero => exact absurd hx h.ne_negativeZero
    | nan => rw [hx] at hq; cases hq
    | infinity s => rw [hx] at hq; cases hq
  obtain ⟨grid, small⟩ := h.onGrid q hq (by linarith)
  obtain ⟨r, hr, same⟩ := floor_sub_one grid lower small
  have start : 0 ≤ (q - 1) / 4 := by linarith
  have number : n.barNumber = .ok (⌊r / 4⌋ + 1) := by
    rw [barNumber, beat, hr]
    rfl
  rw [number, ← same, Except.ok.injEq, add_left_inj, Int.natCast_floor_eq_floor start]

/-- The chord that a note sounds in: the one of the bar of its beat, up to the last beat of the chord;
on the fraction of a beat that follows, the one that its riff or walk was started in. -/
theorem Arrangement.chord_of_note {parts : List Part} {rules : List AppliedRule} {c : Catalog}
    {a : Arrangement} (h : make p parts rules c = .ok a) {v : Voice} (hv : v ∈ a.voices) {n : NoteEvent}
    (hn : n ∈ v.notes) {q : ℚ} (hq : n.startBeat.toRat? = some q) (lower : 1 ≤ q)
    (upper : q < a.timeline.totalBeats + 1) :
    ∃ bar chord, a.timeline.bars[⌊(q - 1) / 4⌋₊]? = some bar ∧
      a.timeline.boundaries[bar.chordIndex]? = some chord ∧
      (n.barNumber = .ok (bar.index + 1) ↔ ¬ (2 ^ 53 < q ∧ ∃ k : Int, q = 4 * k)) ∧
      a.timeline.chordIndexAt? (.real n.startBeat) =
        (if q ≤ chord.endBeat then some bar.chordIndex else none) ∧
      ∃ roster candidates d,
        Roster.make c a.timeline v.part.id (BindingSet.ofList rules).toList = .ok roster ∧
        Candidate.ofEngagements a.timeline roster.engagements = .ok candidates ∧
        d ∈ candidates ∧ d.wins candidates = true ∧ d.note a.timeline v.part = .ok n ∧
        let sounding := if q ≤ chord.endBeat then bar.chordIndex else d.performance.fallbackChord
        (d.event.pitchRef.resolve ⟨a.timeline, sounding, a.timeline.nextChordIndex sounding⟩).map
          PitchClass.degree = .ok n.degree := by
  obtain ⟨outcomes, candidates, notes, houtcomes, hcandidates, hnotes, eq⟩ := voice_of_mem h hv
  have timeline := timeline_eq h
  rw [eq] at hn
  have hn' : n ∈ notes := (NoteEvent.stablySorted_mergeSort notes).perm.mem_iff.mp hn
  obtain ⟨d, hd, hnote⟩ := exists_of_mem_mapM hnotes hn'
  obtain ⟨hd, wins⟩ := List.mem_filter.mp hd
  have placed := isStartBeat_of_winningNotes hcandidates hnotes hn'
  have value : (Amount.real n.startBeat).value? = some q := hq
  rw [timeline] at upper
  obtain ⟨bar, chord, hbar, index, hchord, found⟩ := Timeline.chordIndexAt?_of_beat value lower upper
  rw [← timeline] at hbar hchord found
  refine ⟨bar, chord, hbar, hchord, ?_, found, _, candidates, d,
    Roster.make_eq_ok.mpr ⟨outcomes, houtcomes, rfl⟩, hcandidates, hd, wins, hnote, ?_⟩
  · rw [index]
    exact NoteEvent.barNumber_eq_ok_iff placed hq lower
  · obtain ⟨pitch, hpitch, rfl⟩ := Candidate.note_eq_ok.mp hnote
    have sounds : (a.timeline.chordIndexAt? (.real d.beat)).getD d.performance.fallbackChord =
        if q ≤ chord.endBeat then bar.chordIndex else d.performance.fallbackChord := by
      rw [found]
      split_ifs
      · rfl
      · rfl
    rw [soundingContext, sounds] at hpitch
    intro sounding
    rw [hpitch]
    rfl

/-- The second note of the leap falls into the second bar, but it sounds in the chord of the first. -/
theorem Arrangement.leap_misses_chord :
    make threeBars [bassPart] [lowLeap, highLeap] leapCatalog = .ok leapArrangement ∧
    (∀ e ∈ leap.events, e.pitchRef = currentRoot) ∧
    ∃ v ∈ leapArrangement.voices, ∃ n ∈ v.notes, ∃ bar,
      n.startBeat = finite (17 / 2) ∧ leapArrangement.timeline.totalBeats = 12 ∧
      n.barNumber = .ok 2 ∧ leapArrangement.timeline.bars[1]? = some bar ∧
      leapArrangement.timeline.chordIndexAt? (.real n.startBeat) = none ∧ n.degree = "I" ∧
      (currentRoot.resolve ⟨leapArrangement.timeline, bar.chordIndex,
        leapArrangement.timeline.nextChordIndex bar.chordIndex⟩).map PitchClass.degree = .ok "IV" := by
  refine ⟨make_leap, by decide, _, List.mem_singleton.mpr rfl, lowRoot (17 / 2), ?_, ?_⟩
  · exact List.mem_cons_of_mem _ (List.mem_singleton.mpr rfl)
  · refine ⟨⟨1, 1, "IV", 5, 4⟩, rfl, rfl, ?_, rfl, by decide +kernel, rfl, ?_⟩
    · exact ok_of_toOption (by decide +kernel)
    · exact ok_of_toOption (by decide +kernel)

theorem Arrangement.leap_chord_of_note :
    make threeBars [bassPart] [lowLeap, highLeap] leapCatalog = .ok leapArrangement ∧
    (1 : ℚ) ≤ 17 / 2 ∧ (17 / 2 : ℚ) < leapArrangement.timeline.totalBeats + 1 ∧
    ∃ bar chord, leapArrangement.timeline.bars[⌊((17 / 2 : ℚ) - 1) / 4⌋₊]? = some bar ∧
      leapArrangement.timeline.boundaries[bar.chordIndex]? = some chord ∧
      leapArrangement.timeline.chordIndexAt? (.real (finite (17 / 2))) =
        if (17 / 2 : ℚ) ≤ chord.endBeat then some bar.chordIndex else none := by
  have lower : (1 : ℚ) ≤ 17 / 2 := by norm_num
  have upper : (17 / 2 : ℚ) < leapArrangement.timeline.totalBeats + 1 := by
    rw [show leapArrangement.timeline.totalBeats = 12 from rfl]
    norm_num
  have note : lowRoot (17 / 2) ∈ [lowRoot 1, lowRoot (17 / 2)] :=
    List.mem_cons_of_mem _ (List.mem_singleton.mpr rfl)
  obtain ⟨bar, chord, hbar, hchord, -, found, -⟩ :=
    chord_of_note make_leap (List.mem_singleton.mpr rfl) note rfl lower upper
  exact ⟨make_leap, lower, upper, bar, chord, hbar, hchord, found⟩

end Ostinato
