import Ostinato.Proofs.Number.Value
import Ostinato.Timeline

/-!
# The layout of a timeline

Bars, chord boundaries and the search for a beat are three views of the chords of a progression. All
three are told by one sum, the bars that are held before a chord: it is the first bar of the chord, and
four times it is the last beat before the chord.
-/

namespace Ostinato

/-! ### Bars before a chord -/

/-- The number of bars that are held before a chord. -/
def barsBefore (chords : List Chord) (j : Nat) : Nat := ((chords.take j).map (·.held.val)).sum

@[simp] theorem barsBefore_zero (chords : List Chord) : barsBefore chords 0 = 0 := rfl

@[simp] theorem barsBefore_cons_succ (c : Chord) (rest : List Chord) (j : Nat) :
    barsBefore (c :: rest) (j + 1) = c.held.val + barsBefore rest j := by
  simp [barsBefore]

theorem barsBefore_length (p : Progression) : barsBefore p.chords p.chords.length = p.totalBars := by
  rw [barsBefore, List.take_length]
  rfl

theorem barsBefore_succ {chords : List Chord} {j : Nat} {c : Chord} (h : chords[j]? = some c) :
    barsBefore chords (j + 1) = barsBefore chords j + c.held.val := by
  simp [barsBefore, List.take_add_one, h]

theorem barsBefore_succ_of_none {chords : List Chord} {j : Nat} (h : chords[j]? = none) :
    barsBefore chords (j + 1) = barsBefore chords j := by
  simp [barsBefore, List.take_add_one, h]

theorem barsBefore_mono (chords : List Chord) {i j : Nat} (h : i ≤ j) :
    barsBefore chords i ≤ barsBefore chords j := by
  induction j, h using Nat.le_induction with
  | base => exact Nat.le_refl _
  | succ j _ ih =>
    cases hj : chords[j]? with
    | none =>
      rw [barsBefore_succ_of_none hj]
      exact ih
    | some c =>
      rw [barsBefore_succ hj]
      omega

theorem chord_unique {chords : List Chord} {i j k : Nat}
    (hj : barsBefore chords j ≤ i ∧ i < barsBefore chords (j + 1))
    (hk : barsBefore chords k ≤ i ∧ i < barsBefore chords (k + 1)) : j = k := by
  rcases Nat.lt_trichotomy j k with h | h | h
  · have := barsBefore_mono chords (show j + 1 ≤ k from h)
    omega
  · exact h
  · have := barsBefore_mono chords (show k + 1 ≤ j from h)
    omega

theorem exists_chord_of_bar {chords : List Chord} {i : Nat}
    (h : i < barsBefore chords chords.length) :
    ∃ j c, chords[j]? = some c ∧ barsBefore chords j ≤ i ∧ i < barsBefore chords (j + 1) := by
  induction chords generalizing i with
  | nil => simp at h
  | cons c rest ih =>
    simp only [List.length_cons, barsBefore_cons_succ] at h
    by_cases hi : i < c.held.val
    · exact ⟨0, c, rfl, Nat.zero_le _, by simpa using hi⟩
    · obtain ⟨j, d, hd, hl, hu⟩ := ih (i := i - c.held.val) (by omega)
      refine ⟨j + 1, d, by simpa using hd, ?_, ?_⟩
      · rw [barsBefore_cons_succ]
        omega
      · rw [barsBefore_cons_succ]
        omega

namespace Timeline

/-! ### Boundaries and bars by position -/

@[simp] theorem length_boundariesFrom (k b : Nat) (chords : List Chord) :
    (boundariesFrom k b chords).length = chords.length := by
  induction chords generalizing k b with
  | nil => rfl
  | cons c rest ih => simp [boundariesFrom, ih]

theorem getElem?_boundariesFrom (k b : Nat) (chords : List Chord) (j : Nat) :
    (boundariesFrom k b chords)[j]? = chords[j]?.map fun c =>
      ⟨b + barsBefore chords j, k + j, c.root, firstBeat (b + barsBefore chords j),
        firstBeat (b + barsBefore chords (j + 1)) - 1⟩ := by
  induction chords generalizing k b j with
  | nil => simp [boundariesFrom]
  | cons c rest ih =>
    cases j with
    | zero => simp [boundariesFrom]
    | succ j =>
      simp only [boundariesFrom, List.getElem?_cons_succ, ih, barsBefore_cons_succ, Nat.add_assoc,
        Nat.add_comm 1 j]

@[simp] theorem length_barsFrom (k b : Nat) (chords : List Chord) :
    (barsFrom k b chords).length = barsBefore chords chords.length := by
  induction chords generalizing k b with
  | nil => rfl
  | cons c rest ih => simp [barsFrom, ih]

theorem getElem?_barsFrom (k b : Nat) {chords : List Chord} {i j : Nat} {c : Chord}
    (hc : chords[j]? = some c) (lower : barsBefore chords j ≤ i)
    (upper : i < barsBefore chords (j + 1)) :
    (barsFrom k b chords)[i]? = some ⟨b + i, k + j, c.root, firstBeat (b + i), beatsPerBar⟩ := by
  induction chords generalizing k b i j with
  | nil => simp at hc
  | cons d rest ih =>
    cases j with
    | zero =>
      obtain rfl : d = c := by simpa using hc
      have hi : i < d.held.val := by simpa using upper
      rw [barsFrom, List.getElem?_append_left (by simpa using hi)]
      simp [hi]
    | succ j =>
      rw [barsBefore_cons_succ] at lower upper
      have hi : d.held.val ≤ i := by omega
      rw [barsFrom, List.getElem?_append_right (by simpa using hi), List.length_map, List.length_range,
        ih (k + 1) (b + d.held.val) (i := i - d.held.val) (by simpa using hc) (by omega) (by omega)]
      have hb : b + d.held.val + (i - d.held.val) = b + i := by omega
      rw [hb, show k + 1 + j = k + (j + 1) by omega]

section OfProgression

variable (p : Progression)

theorem boundary_ofProgression (j : Nat) :
    (ofProgression p).boundaries[j]? = p.chords[j]?.map fun c =>
      ⟨barsBefore p.chords j, j, c.root, beatsPerBar * barsBefore p.chords j + 1,
        beatsPerBar * barsBefore p.chords (j + 1)⟩ := by
  simp [ofProgression, getElem?_boundariesFrom, firstBeat]

@[simp] theorem length_boundaries : (ofProgression p).boundaries.length = p.chords.length :=
  length_boundariesFrom 0 0 p.chords

@[simp] theorem length_bars : (ofProgression p).bars.length = p.totalBars := by
  rw [← barsBefore_length]
  exact length_barsFrom 0 0 p.chords

theorem totalBeats_ofProgression : (ofProgression p).totalBeats = beatsPerBar * p.totalBars := by
  rw [totalBeats, length_bars, Nat.mul_comm]

variable {p}

theorem bar_ofProgression {i j : Nat} {c : Chord} (hc : p.chords[j]? = some c)
    (lower : barsBefore p.chords j ≤ i) (upper : i < barsBefore p.chords (j + 1)) :
    (ofProgression p).bars[i]? = some ⟨i, j, c.root, firstBeat i, beatsPerBar⟩ := by
  simpa [ofProgression] using getElem?_barsFrom 0 0 hc lower upper

theorem exists_chord_of_getElem?_bars {i : Nat} {b : Bar} (h : (ofProgression p).bars[i]? = some b) :
    ∃ j c, p.chords[j]? = some c ∧ barsBefore p.chords j ≤ i ∧ i < barsBefore p.chords (j + 1) ∧
      b = ⟨i, j, c.root, firstBeat i, beatsPerBar⟩ := by
  have hi : i < barsBefore p.chords p.chords.length := by
    rw [barsBefore_length, ← length_bars p]
    exact (List.getElem?_eq_some_iff.mp h).1
  obtain ⟨j, c, hc, lower, upper⟩ := exists_chord_of_bar hi
  refine ⟨j, c, hc, lower, upper, ?_⟩
  rw [bar_ofProgression hc lower upper] at h
  exact (Option.some.inj h).symm

/-! ### Chords by beat -/

theorem contains_iff {c : ChordBoundary} {beat : Amount} {q : ℚ} (h : beat.value? = some q) :
    c.contains beat = true ↔ (c.startBeat : ℚ) ≤ q ∧ q ≤ c.endBeat := by
  simp only [ChordBoundary.contains, Bool.and_eq_true, Amount.atLeast_iff h, Amount.atMost_iff h,
    Int.cast_natCast]

theorem contains_boundary_iff {j : Nat} {b : ChordBoundary} {beat : Amount} {q : ℚ}
    (hb : (ofProgression p).boundaries[j]? = some b) (h : beat.value? = some q) :
    b.contains beat = true ↔
      ((beatsPerBar * barsBefore p.chords j + 1 : Nat) : ℚ) ≤ q ∧
        q ≤ (beatsPerBar * barsBefore p.chords (j + 1) : Nat) := by
  rw [boundary_ofProgression] at hb
  obtain ⟨c, -, rfl⟩ := Option.map_eq_some_iff.mp hb
  exact contains_iff h

/-- The beats of only one chord include a beat, with the fractions that follow its last beat. -/
theorem chord_unique_at {chords : List Chord} {q : ℚ} {i j : Nat}
    (hi : ((beatsPerBar * barsBefore chords i + 1 : Nat) : ℚ) ≤ q ∧
      q < (beatsPerBar * barsBefore chords (i + 1) + 1 : Nat))
    (hj : ((beatsPerBar * barsBefore chords j + 1 : Nat) : ℚ) ≤ q ∧
      q < (beatsPerBar * barsBefore chords (j + 1) + 1 : Nat)) : i = j := by
  have apart {m n : Nat} (hmn : m < n) (upper : q < (beatsPerBar * barsBefore chords (m + 1) + 1 : Nat))
      (lower : ((beatsPerBar * barsBefore chords n + 1 : Nat) : ℚ) ≤ q) : False := by
    have mono := Nat.mul_le_mul_left beatsPerBar (barsBefore_mono chords (show m + 1 ≤ n from hmn))
    have both := Nat.cast_lt.mp (lower.trans_lt upper)
    omega
  rcases Nat.lt_trichotomy i j with hij | hij | hij
  · exact (apart hij hi.2 hj.1).elim
  · exact hij
  · exact (apart hij hj.2 hi.1).elim

theorem span_of_contains {j : Nat} {b : ChordBoundary} {beat : Amount} {q : ℚ}
    (hb : (ofProgression p).boundaries[j]? = some b) (h : beat.value? = some q)
    (cb : b.contains beat = true) :
    ((beatsPerBar * barsBefore p.chords j + 1 : Nat) : ℚ) ≤ q ∧
      q < (beatsPerBar * barsBefore p.chords (j + 1) + 1 : Nat) := by
  rw [contains_boundary_iff hb h] at cb
  exact ⟨cb.1, cb.2.trans_lt (Nat.cast_lt.mpr (Nat.lt_succ_self _))⟩

theorem chordIndexAt?_eq_some_iff {beat : Amount} {q : ℚ} (h : beat.value? = some q) (j : Nat) :
    (ofProgression p).chordIndexAt? beat = some j ↔
      ∃ b, (ofProgression p).boundaries[j]? = some b ∧ b.contains beat = true := by
  have index {i : Nat} {b : ChordBoundary} (hb : (ofProgression p).boundaries[i]? = some b) :
      b.chordIndex = i := by
    rw [boundary_ofProgression] at hb
    obtain ⟨c, -, rfl⟩ := Option.map_eq_some_iff.mp hb
    rfl
  have found {b : ChordBoundary}
      (hb : (ofProgression p).boundaries.find? (fun b => b.contains beat) = some b) :
      ∃ i : Nat, (ofProgression p).boundaries[i]? = some b ∧ b.contains beat = true := by
    obtain ⟨i, hi⟩ := List.getElem?_of_mem (List.mem_of_find?_eq_some hb)
    have cb : b.contains beat = true := by simpa using List.find?_some hb
    exact ⟨i, hi, cb⟩
  rw [chordIndexAt?, Option.map_eq_some_iff]
  constructor
  · rintro ⟨b, hb, rfl⟩
    obtain ⟨i, hi, cb⟩ := found hb
    exact ⟨b, by rw [index hi]; exact hi, cb⟩
  · rintro ⟨b, hb, cb⟩
    cases hf : (ofProgression p).boundaries.find? fun b => b.contains beat with
    | none => exact absurd cb (List.find?_eq_none.mp hf b (List.mem_of_getElem? hb))
    | some a =>
      obtain ⟨i, hi, ca⟩ := found hf
      obtain rfl : i = j := chord_unique_at (span_of_contains hi h ca) (span_of_contains hb h cb)
      exact ⟨a, rfl, index hi⟩

/-- The search for a beat on the bars of a chord finds the chord up to its last beat, and nothing on
the fraction of a beat that follows. -/
theorem chordIndexAt?_of_chord {beat : Amount} {q : ℚ} (h : beat.value? = some q) {j : Nat} {c : Chord}
    (hc : p.chords[j]? = some c) (lower : ((beatsPerBar * barsBefore p.chords j + 1 : Nat) : ℚ) ≤ q)
    (upper : q < (beatsPerBar * barsBefore p.chords (j + 1) + 1 : Nat)) :
    (ofProgression p).chordIndexAt? beat =
      if q ≤ (beatsPerBar * barsBefore p.chords (j + 1) : Nat) then some j else none := by
  have hb := boundary_ofProgression p j
  rw [hc, Option.map_some] at hb
  by_cases hq : q ≤ (beatsPerBar * barsBefore p.chords (j + 1) : Nat)
  · rw [if_pos hq, chordIndexAt?_eq_some_iff h]
    exact ⟨_, hb, (contains_boundary_iff hb h).mpr ⟨lower, hq⟩⟩
  · rw [if_neg hq, Option.eq_none_iff_forall_ne_some]
    intro i hi
    obtain ⟨a, ha, ca⟩ := (chordIndexAt?_eq_some_iff h i).mp hi
    obtain rfl : i = j := chord_unique_at (span_of_contains ha h ca) ⟨lower, upper⟩
    exact hq ((contains_boundary_iff ha h).mp ca).2

end OfProgression

/-! ### The layout -/

/-- What a timeline says of the chords of a progression, bar by bar, chord by chord and beat by beat. -/
structure Layout (t : Timeline) (p : Progression) : Prop where
  bars_length : t.bars.length = p.totalBars
  boundaries_length : t.boundaries.length = p.chords.length
  totalBeats_eq : t.totalBeats = 4 * p.totalBars
  /-- A bar starts after the beats of those before it, lasts four beats, belongs to the one chord that
  is held in it, and has the degree of that chord. -/
  bar : ∀ (i : Nat) (b : Bar), t.bars[i]? = some b →
    b.index = i ∧ b.startBeat = 1 + 4 * i ∧ b.endBeat = 4 + 4 * i ∧
      (∀ j, b.chordIndex = j ↔ barsBefore p.chords j ≤ i ∧ i < barsBefore p.chords (j + 1)) ∧
      ∃ c, t.boundaries[b.chordIndex]? = some c ∧ c.chordDegree = b.chordDegree
  /-- A boundary has the degree of its chord and reaches from the first beat of its first bar to the
  last beat of its last bar. -/
  boundary : ∀ (j : Nat) (c : ChordBoundary), t.boundaries[j]? = some c →
    c.chordIndex = j ∧ p.chords[j]?.map Chord.root = some c.chordDegree ∧
      c.barIndex = barsBefore p.chords j ∧
      (∃ first, t.bars[c.barIndex]? = some first ∧ c.startBeat = first.startBeat) ∧
      ∃ last, t.bars[barsBefore p.chords (j + 1) - 1]? = some last ∧ (c.endBeat : Int) = last.endBeat
  abut : ∀ (j : Nat) (c d : ChordBoundary), t.boundaries[j]? = some c → t.boundaries[j + 1]? = some d →
    c.endBeat + 1 = d.startBeat
  starts : ∀ c ∈ t.boundaries.head?, c.startBeat = 1
  ends : ∀ c ∈ t.boundaries.getLast?, c.endBeat = t.totalBeats
  /-- A whole beat of the timeline lies in one boundary, that of its bar. -/
  inside : ∀ (n : Int) (beat : Amount), beat.value? = some (n : ℚ) → 1 ≤ n → n ≤ 4 * p.totalBars →
    (∃! j : Nat, ∃ c, t.boundaries[j]? = some c ∧ c.contains beat = true) ∧
      ∃ b, t.bars[((n - 1) / 4).toNat]? = some b ∧ t.chordIndexAt? beat = some b.chordIndex
  outside : ∀ (n : Int) (beat : Amount), beat.value? = some (n : ℚ) → n < 1 ∨ 4 * p.totalBars < n →
    t.chordIndexAt? beat = none

section Views

variable {p : Progression}

theorem view_of_bar {i : Nat} {b : Bar} (h : (ofProgression p).bars[i]? = some b) :
    b.index = i ∧ b.startBeat = 1 + 4 * i ∧ b.endBeat = 4 + 4 * i ∧
      (∀ j, b.chordIndex = j ↔ barsBefore p.chords j ≤ i ∧ i < barsBefore p.chords (j + 1)) ∧
      ∃ c, (ofProgression p).boundaries[b.chordIndex]? = some c ∧ c.chordDegree = b.chordDegree := by
  obtain ⟨j, c, hc, lower, upper, rfl⟩ := exists_chord_of_getElem?_bars h
  refine ⟨rfl, ?_, ?_, fun k => ⟨?_, fun hk => chord_unique ⟨lower, upper⟩ hk⟩, ?_⟩
  · simp only [firstBeat, beatsPerBar]
    omega
  · simp only [Bar.endBeat, firstBeat, beatsPerBar]
    omega
  · rintro rfl
    exact ⟨lower, upper⟩
  · have hb := boundary_ofProgression p j
    rw [hc, Option.map_some] at hb
    exact ⟨_, hb, rfl⟩

theorem view_of_boundary {j : Nat} {c : ChordBoundary} (h : (ofProgression p).boundaries[j]? = some c) :
    c.chordIndex = j ∧ p.chords[j]?.map Chord.root = some c.chordDegree ∧
      c.barIndex = barsBefore p.chords j ∧
      (∃ first, (ofProgression p).bars[c.barIndex]? = some first ∧ c.startBeat = first.startBeat) ∧
      ∃ last, (ofProgression p).bars[barsBefore p.chords (j + 1) - 1]? = some last ∧
        (c.endBeat : Int) = last.endBeat := by
  rw [boundary_ofProgression] at h
  obtain ⟨chord, hc, rfl⟩ := Option.map_eq_some_iff.mp h
  have step := barsBefore_succ hc
  have held := chord.held.property
  have first := bar_ofProgression hc (Nat.le_refl (barsBefore p.chords j)) (by omega)
  have last := bar_ofProgression hc (i := barsBefore p.chords (j + 1) - 1) (by omega) (by omega)
  refine ⟨rfl, by rw [hc]; rfl, rfl, ⟨_, first, rfl⟩, ⟨_, last, ?_⟩⟩
  simp only [Bar.endBeat, firstBeat, beatsPerBar]
  omega

theorem endBeat_of_boundary {j : Nat} {c : ChordBoundary}
    (h : (ofProgression p).boundaries[j]? = some c) :
    c.endBeat = beatsPerBar * barsBefore p.chords (j + 1) := by
  rw [boundary_ofProgression] at h
  obtain ⟨chord, -, rfl⟩ := Option.map_eq_some_iff.mp h
  rfl

theorem startBeat_of_boundary {j : Nat} {c : ChordBoundary}
    (h : (ofProgression p).boundaries[j]? = some c) :
    c.startBeat = beatsPerBar * barsBefore p.chords j + 1 := by
  rw [boundary_ofProgression] at h
  obtain ⟨chord, -, rfl⟩ := Option.map_eq_some_iff.mp h
  rfl

theorem endBeat_of_getLast? {c : ChordBoundary} (h : c ∈ (ofProgression p).boundaries.getLast?) :
    c.endBeat = (ofProgression p).totalBeats := by
  rw [Option.mem_def, List.getLast?_eq_getElem?] at h
  have inside := (List.getElem?_eq_some_iff.mp h).1
  rw [length_boundaries] at h inside
  rw [endBeat_of_boundary h, totalBeats_ofProgression, ← barsBefore_length,
    show p.chords.length - 1 + 1 = p.chords.length by omega]

theorem chordIndexAt?_of_bar {beat : Amount} {q : ℚ} (h : beat.value? = some q) {i : Nat}
    (hi : i < p.totalBars) (lower : ((beatsPerBar * i + 1 : Nat) : ℚ) ≤ q)
    (upper : q < (beatsPerBar * (i + 1) + 1 : Nat)) :
    ∃ b c, (ofProgression p).bars[i]? = some b ∧ (ofProgression p).boundaries[b.chordIndex]? = some c ∧
      beatsPerBar * (i + 1) ≤ c.endBeat ∧
      (ofProgression p).chordIndexAt? beat = if q ≤ c.endBeat then some b.chordIndex else none := by
  rw [← barsBefore_length] at hi
  obtain ⟨j, chord, hchord, low, high⟩ := exists_chord_of_bar hi
  have hb := boundary_ofProgression p j
  rw [hchord, Option.map_some] at hb
  have first := Nat.add_le_add_right (Nat.mul_le_mul_left beatsPerBar low) 1
  have last := Nat.mul_le_mul_left beatsPerBar (show i + 1 ≤ barsBefore p.chords (j + 1) from high)
  refine ⟨_, _, bar_ofProgression hchord low high, hb, last, chordIndexAt?_of_chord h hchord ?_ ?_⟩
  · exact (Nat.cast_le.mpr first).trans lower
  · exact upper.trans_le (Nat.cast_le.mpr (Nat.add_le_add_right last 1))

theorem view_of_beat {n : Int} {beat : Amount} (h : beat.value? = some (n : ℚ)) (lower : 1 ≤ n)
    (upper : n ≤ 4 * p.totalBars) :
    ∃ b, (ofProgression p).bars[((n - 1) / 4).toNat]? = some b ∧
      (ofProgression p).chordIndexAt? beat = some b.chordIndex := by
  have first : ((beatsPerBar * ((n - 1) / 4).toNat + 1 : Nat) : ℚ) ≤ n := by
    rw [← Int.cast_natCast, Int.cast_le, beatsPerBar]
    omega
  have last : n ≤ (beatsPerBar * (((n - 1) / 4).toNat + 1) : Nat) := by
    rw [beatsPerBar]
    omega
  have before : (n : ℚ) < (beatsPerBar * (((n - 1) / 4).toNat + 1) + 1 : Nat) := by
    rw [← Int.cast_natCast, Int.cast_lt]
    omega
  have inside : ((n - 1) / 4).toNat < p.totalBars := by omega
  obtain ⟨b, c, hb, -, held, found⟩ := chordIndexAt?_of_bar h inside first before
  refine ⟨b, hb, found.trans (if_pos ?_)⟩
  rw [← Int.cast_natCast, Int.cast_le]
  omega

theorem boundary_of_beat {n : Int} {beat : Amount} (h : beat.value? = some (n : ℚ)) (lower : 1 ≤ n)
    (upper : n ≤ 4 * p.totalBars) :
    ∃! j : Nat, ∃ c, (ofProgression p).boundaries[j]? = some c ∧ c.contains beat = true := by
  obtain ⟨b, -, found⟩ := view_of_beat h lower upper
  refine ⟨b.chordIndex, (chordIndexAt?_eq_some_iff h _).mp found, fun k hk => ?_⟩
  rw [(chordIndexAt?_eq_some_iff h k).mpr hk] at found
  exact Option.some.inj found

theorem chordIndexAt?_outside {n : Int} {beat : Amount} (h : beat.value? = some (n : ℚ))
    (hn : n < 1 ∨ 4 * p.totalBars < n) : (ofProgression p).chordIndexAt? beat = none := by
  rw [Option.eq_none_iff_forall_ne_some]
  intro j hj
  obtain ⟨b, hb, cb⟩ := (chordIndexAt?_eq_some_iff h j).mp hj
  rw [contains_boundary_iff hb h] at cb
  have first : ((beatsPerBar * barsBefore p.chords j + 1 : Nat) : Int) ≤ n := by exact_mod_cast cb.1
  have last : n ≤ (beatsPerBar * barsBefore p.chords (j + 1) : Nat) := by exact_mod_cast cb.2
  have inside : j < p.chords.length := by
    rw [← length_boundaries p]
    exact (List.getElem?_eq_some_iff.mp hb).1
  have total := barsBefore_mono p.chords (show j + 1 ≤ p.chords.length from inside)
  rw [barsBefore_length] at total
  simp only [beatsPerBar] at first last
  omega

/-! ### All bars -/

theorem map_index_bars (p : Progression) :
    (ofProgression p).bars.map (·.index) = List.range p.totalBars := by
  refine List.ext_getElem (by simp) fun i hi _ => ?_
  rw [List.length_map] at hi
  rw [List.getElem_map, List.getElem_range]
  exact (view_of_bar (List.getElem?_eq_getElem hi)).1

theorem pairwise_startBeat (p : Progression) :
    (ofProgression p).bars.Pairwise fun b d => b.startBeat < d.startBeat := by
  rw [List.pairwise_iff_getElem]
  intro i j hi hj hij
  have first := (view_of_bar (List.getElem?_eq_getElem hi)).2.1
  have second := (view_of_bar (List.getElem?_eq_getElem hj)).2.1
  omega

theorem nextChordIndex_natCast (t : Timeline) (i : Nat) :
    t.nextChordIndex i = (if i + 1 < t.boundaries.length then i + 1 else i : Nat) := by
  unfold nextChordIndex
  split_ifs <;> omega

end Views

theorem layout_ofProgression (p : Progression) : Layout (ofProgression p) p where
  bars_length := length_bars p
  boundaries_length := length_boundaries p
  totalBeats_eq := totalBeats_ofProgression p
  bar _ _ h := view_of_bar h
  boundary _ _ h := view_of_boundary h
  abut _ _ _ hc hd := by rw [endBeat_of_boundary hc, startBeat_of_boundary hd]
  starts c hc := by
    rw [Option.mem_def, List.head?_eq_getElem?] at hc
    rw [startBeat_of_boundary hc, barsBefore_zero]
    rfl
  ends _ hc := endBeat_of_getLast? hc
  inside _ _ h lower upper := ⟨boundary_of_beat h lower upper, view_of_beat h lower upper⟩
  outside _ _ h hn := chordIndexAt?_outside h hn

end Timeline

end Ostinato
