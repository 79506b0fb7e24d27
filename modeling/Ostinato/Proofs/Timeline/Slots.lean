import Mathlib.Data.List.Sort
import Ostinato.Proofs.Timeline.Spans

/-!
# The slots of a timeline

A timeline lists the slots that have a span on it, each of them once. Its bars and its chords both cut
its beats into spans that follow one another, and the beats of a chord are those of its bars.
-/

namespace Ostinato

open Success

def SlotSpan.beats (s : SlotSpan) : List Nat :=
  List.range' s.startBeat (s.endBeat + 1 - s.startBeat).toNat

def Bar.span (b : Bar) : SlotSpan := ⟨4, b.startBeat, b.endBeat, b.chordIndex, b.chordIndex + 1⟩

def ChordBoundary.span (b : ChordBoundary) : SlotSpan :=
  ⟨3, b.startBeat, b.endBeat, b.chordIndex, b.chordIndex + 1⟩

/-! ### Intervals one after another -/

theorem flatMap_between {f : Nat → Nat} (mono : ∀ i, f i ≤ f (i + 1)) (first count : Nat) :
    (List.range' first count).flatMap (fun i => List.range' (f i + 1) (f (i + 1) - f i)) =
      List.range' (f first + 1) (f (first + count) - f first) := by
  induction count with
  | zero => simp
  | succ n ih =>
    have step := mono (first + n)
    have low : f first ≤ f (first + n) := monotone_nat_of_le_succ mono (Nat.le_add_right first n)
    have whole : f (first + (n + 1)) - f first =
        f (first + n) - f first + (f (first + n + 1) - f (first + n)) := by
      rw [← Nat.add_assoc]
      omega
    have next : f first + 1 + (f (first + n) - f first) = f (first + n) + 1 := by omega
    rw [List.range'_1_concat, List.flatMap_append, ih, List.flatMap_singleton, whole,
      ← List.range'_append_1, next]

theorem filter_range_interval {n a b : Nat} (hb : b ≤ n) :
    (List.range n).filter (fun i => a ≤ i ∧ i < b) = List.range' a (b - a) := by
  have sorted : ((List.range n).filter fun i => a ≤ i ∧ i < b).Pairwise (· < ·) :=
    List.pairwise_lt_range.filter _
  refine sorted.eq_of_mem_iff List.pairwise_lt_range' fun i => ?_
  rw [List.mem_filter, List.mem_range, List.mem_range'_1, decide_eq_true_eq]
  omega

namespace Timeline

variable {p : Progression}

/-! ### The list of slots -/

theorem slots_ofProgression (p : Progression) : (ofProgression p).slots =
    .global :: ((List.range p.totalBars).map .bar ++ (List.range p.chords.length).map .chord
      ++ (List.range (p.chords.length - 1)).map (fun i => .transition i (i + 1))
      ++ if p.chords.length = 0 then [] else [.lastChord]) := by
  have bars : (ofProgression p).bars.map (fun b => Slot.bar b.index) =
      (List.range p.totalBars).map .bar := by
    rw [← map_index_bars, List.map_map]
    rfl
  simp only [slots, bars, length_boundaries, List.cons_append]

theorem nodup_slots (p : Progression) : (ofProgression p).slots.Nodup := by
  have bars : ((List.range p.totalBars).map Slot.bar).Nodup :=
    List.nodup_range.map fun i j h => by simpa using h
  have chords : ((List.range p.chords.length).map Slot.chord).Nodup :=
    List.nodup_range.map fun i j h => by simpa using h
  have changes : ((List.range (p.chords.length - 1)).map fun i => Slot.transition i (i + 1)).Nodup :=
    List.nodup_range.map fun i j h => by simpa using h
  rw [slots_ofProgression]
  split_ifs <;> simp [List.nodup_append, bars, chords, changes, or_imp, forall_and]

theorem lt_totalBars_iff {i : Nat} : i < p.totalBars ↔ ∃ b, (ofProgression p).bars[i]? = some b := by
  simp [List.getElem?_eq_some_iff]

theorem lt_length_chords_iff {j : Nat} :
    j < p.chords.length ↔ ∃ b, (ofProgression p).boundaries[j]? = some b := by
  simp [List.getElem?_eq_some_iff]

/-- The slots that are no change of chords are listed if they have a span. -/
theorem mem_slots_iff {s : Slot} (place : s.kind ≠ "transition") (length : Amount) :
    s ∈ (ofProgression p).slots ↔ ∃ span, s.span? (ofProgression p) length = .ok (some span) := by
  rw [slots_ofProgression]
  cases s with
  | global => simp [Slot.span?]
  | bar i => split_ifs <;> simp [Slot.span?, lt_totalBars_iff]
  | chord j => split_ifs <;> simp [Slot.span?, lt_length_chords_iff]
  | transition i j => exact absurd rfl place
  | lastChord =>
    by_cases empty : p.chords.length = 0
    · have silent : (ofProgression p).boundaries.getLast? = none := by
        rw [List.getLast?_eq_none_iff, ← List.length_eq_zero_iff, length_boundaries, empty]
      simp [empty, Slot.span?, silent]
    · have last : p.chords.length = p.chords.length - 1 + 1 := by omega
      obtain ⟨b, -, span, -⟩ := span?_lastChord last length
      simp [empty, span]

theorem transition_mem_slots_iff {i j : Nat} {length : Amount} {beats : Int}
    (h : length.truncate = .ok beats) :
    .transition i j ∈ (ofProgression p).slots ↔
      j = i + 1 ∧ ∃ span, (Slot.transition i j).span? (ofProgression p) length = .ok (some span) := by
  have listed : .transition i j ∈ (ofProgression p).slots ↔ i < p.chords.length - 1 ∧ i + 1 = j := by
    rw [slots_ofProgression]
    split_ifs <;> simp
  rw [listed]
  constructor
  · rintro ⟨inside, rfl⟩
    obtain ⟨b, hb⟩ := lt_length_chords_iff.mp (show i < p.chords.length by omega)
    obtain ⟨d, hd⟩ := lt_length_chords_iff.mp (show i + 1 < p.chords.length by omega)
    exact ⟨rfl, _, by rw [Slot.span?, hb, hd, h]; rfl⟩
  · rintro ⟨rfl, span, hspan⟩
    have inside : i + 1 < p.chords.length := by
      refine lt_length_chords_iff.mpr (Option.ne_none_iff_exists'.mp fun none => ?_)
      simp [Slot.span?, none] at hspan
    exact ⟨by omega, rfl⟩

/-! ### Bars and chords -/

def barBeats (i : Nat) : List Nat := List.range' (beatsPerBar * i + 1) beatsPerBar

def chordBeats (chords : List Chord) (j : Nat) : List Nat :=
  List.range' (beatsPerBar * barsBefore chords j + 1)
    (beatsPerBar * barsBefore chords (j + 1) - beatsPerBar * barsBefore chords j)

theorem map_chordIndex_boundaries (p : Progression) :
    (ofProgression p).boundaries.map (·.chordIndex) = List.range p.chords.length := by
  refine List.ext_getElem (by simp) fun j hj _ => ?_
  rw [List.length_map] at hj
  rw [List.getElem_map, List.getElem_range]
  exact (view_of_boundary (List.getElem?_eq_getElem hj)).1

theorem beats_of_bar {b : Bar} (hb : b ∈ (ofProgression p).bars) :
    b.span.beats = barBeats b.index := by
  obtain ⟨i, hi⟩ := List.getElem?_of_mem hb
  obtain ⟨index, start, last, -⟩ := view_of_bar hi
  simp only [barBeats, SlotSpan.beats, Bar.span, start, last, index, beatsPerBar]
  congr 1
  · omega
  · omega

theorem beats_of_boundary {b : ChordBoundary} (hb : b ∈ (ofProgression p).boundaries) :
    b.span.beats = chordBeats p.chords b.chordIndex := by
  obtain ⟨j, hj⟩ := List.getElem?_of_mem hb
  have index := (view_of_boundary hj).1
  simp only [chordBeats, SlotSpan.beats, ChordBoundary.span, startBeat_of_boundary hj,
    endBeat_of_boundary hj, index]
  congr 1
  omega

theorem flatMap_of_index {α β : Type} {l : List α} {g : α → List β} (f : α → Nat) (h : Nat → List β)
    (same : ∀ a ∈ l, g a = h (f a)) : l.flatMap g = (l.map f).flatMap h := by
  rw [List.flatMap_map]
  exact List.flatMap_congr same

theorem flatMap_barBeats (first count : Nat) :
    (List.range' first count).flatMap barBeats =
      List.range' (beatsPerBar * first + 1) (beatsPerBar * count) := by
  have whole := flatMap_between (f := fun i => beatsPerBar * i)
    (fun i => Nat.mul_le_mul_left beatsPerBar (Nat.le_add_right i 1)) first count
  simpa [Nat.mul_add, ← barBeats.eq_1] using whole

theorem flatMap_bars (p : Progression) :
    ((ofProgression p).bars.map Bar.span).flatMap SlotSpan.beats =
      List.range' 1 (ofProgression p).totalBeats := by
  rw [List.flatMap_map, flatMap_of_index (·.index) barBeats fun b hb => beats_of_bar hb, map_index_bars,
    List.range_eq_range', flatMap_barBeats, totalBeats_ofProgression]
  rfl

theorem flatMap_boundaries (p : Progression) :
    ((ofProgression p).boundaries.map ChordBoundary.span).flatMap SlotSpan.beats =
      List.range' 1 (ofProgression p).totalBeats := by
  have mono (j : Nat) := Nat.mul_le_mul_left beatsPerBar (barsBefore_mono p.chords (Nat.le_add_right j 1))
  have whole : (List.range' 0 p.chords.length).flatMap (chordBeats p.chords) = _ :=
    flatMap_between mono 0 p.chords.length
  rw [List.flatMap_map, flatMap_of_index (·.chordIndex) (chordBeats p.chords) fun b hb =>
    beats_of_boundary hb, map_chordIndex_boundaries, List.range_eq_range', whole, totalBeats_ofProgression,
    ← barsBefore_length, Nat.zero_add, barsBefore_zero]
  rfl

theorem beats_of_chord {b : ChordBoundary} (hb : b ∈ (ofProgression p).boundaries) :
    b.span.beats = (((ofProgression p).bars.map Bar.span).filter
      fun s => s.currentChord = b.chordIndex).flatMap SlotSpan.beats := by
  have inside : barsBefore p.chords (b.chordIndex + 1) ≤ p.totalBars := by
    obtain ⟨j, hj⟩ := List.getElem?_of_mem hb
    obtain ⟨-, index, last⟩ := inside_of_boundary hj
    rw [length_boundaries] at last
    rw [index, ← barsBefore_length]
    exact barsBefore_mono p.chords last
  have held (d : Bar) (hd : d ∈ (ofProgression p).bars) : d.chordIndex = b.chordIndex ↔
      barsBefore p.chords b.chordIndex ≤ d.index ∧ d.index < barsBefore p.chords (b.chordIndex + 1) := by
    obtain ⟨i, hi⟩ := List.getElem?_of_mem hd
    obtain ⟨rfl, -, -, chord, -⟩ := view_of_bar hi
    exact chord b.chordIndex
  have bars : ((ofProgression p).bars.filter fun d => d.chordIndex = b.chordIndex).map (·.index) =
      List.range' (barsBefore p.chords b.chordIndex)
        (barsBefore p.chords (b.chordIndex + 1) - barsBefore p.chords b.chordIndex) := by
    rw [← filter_range_interval inside, ← map_index_bars, List.filter_map]
    refine congrArg _ (List.filter_congr fun d hd => ?_)
    simp only [Function.comp, held d hd]
  have own (d : Bar) (hd : d ∈ (ofProgression p).bars.filter fun d => d.chordIndex = b.chordIndex) :
      d.span.beats = barBeats d.index :=
    beats_of_bar (List.mem_filter.mp hd).1
  have chosen : ((ofProgression p).bars.map Bar.span).filter (fun s => s.currentChord = b.chordIndex) =
      ((ofProgression p).bars.filter fun d => d.chordIndex = b.chordIndex).map Bar.span := by
    rw [List.filter_map]
    rfl
  rw [chosen, List.flatMap_map, flatMap_of_index (·.index) barBeats own, bars, flatMap_barBeats,
    beats_of_boundary hb, chordBeats, Nat.mul_sub]

theorem beats_ne_nil_of_bar {b : Bar} (hb : b ∈ (ofProgression p).bars) : b.span.beats ≠ [] := by
  rw [beats_of_bar hb, barBeats]
  exact List.cons_ne_nil _ _

theorem beatsPerBar_le_length_beats {b : ChordBoundary} (hb : b ∈ (ofProgression p).boundaries) :
    beatsPerBar ≤ b.span.beats.length := by
  obtain ⟨j, hj⟩ := List.getElem?_of_mem hb
  have index := (view_of_boundary hj).1
  rw [boundary_ofProgression] at hj
  obtain ⟨c, hc, -⟩ := Option.map_eq_some_iff.mp hj
  have step := barsBefore_succ hc
  have held := c.held.property
  rw [beats_of_boundary hb, index, chordBeats, List.length_range', step, beatsPerBar]
  omega

theorem span?_boundary {b : ChordBoundary} (hb : b ∈ (ofProgression p).boundaries) (length : Amount) :
    (Slot.chord b.chordIndex).span? (ofProgression p) length = .ok (some b.span) := by
  obtain ⟨j, hj⟩ := List.getElem?_of_mem hb
  rw [(view_of_boundary hj).1, Slot.span?, hj, Option.map_some, ChordBoundary.span, (view_of_boundary hj).1]
  rfl

theorem mapM_span?_bars (p : Progression) (length : Amount) :
    ((ofProgression p).slots.filter (·.kind = "bar")).mapM (·.span? (ofProgression p) length) =
      .ok (((ofProgression p).bars.map Bar.span).map some) := by
  have listed : (ofProgression p).slots.filter (·.kind = "bar") =
      (ofProgression p).bars.map fun b => .bar b.index := by
    simp only [slots]
    split_ifs <;> simp [List.filter_map, Function.comp_def, Slot.kind]
  rw [listed, List.mapM_map, List.map_map]
  exact mapM_of_forall fun b hb => span?_bar hb length

theorem mapM_span?_boundaries (p : Progression) (length : Amount) :
    ((ofProgression p).slots.filter (·.kind = "chord")).mapM (·.span? (ofProgression p) length) =
      .ok (((ofProgression p).boundaries.map ChordBoundary.span).map some) := by
  have listed : (ofProgression p).slots.filter (·.kind = "chord") =
      (ofProgression p).boundaries.map fun b => .chord b.chordIndex := by
    have indices : (ofProgression p).boundaries.map (fun b => Slot.chord b.chordIndex) =
        (List.range p.chords.length).map .chord := by
      rw [← map_chordIndex_boundaries, List.map_map]
      rfl
    rw [indices, slots_ofProgression]
    split_ifs <;> simp [List.filter_map, Function.comp_def, Slot.kind]
  rw [listed, List.mapM_map, List.map_map]
  exact mapM_of_forall fun b hb => span?_boundary hb length

theorem beats_of_span?_chord {j : Nat} {length : Amount} {span : SlotSpan}
    (h : (Slot.chord j).span? (ofProgression p) length = .ok (some span)) :
    span.beats = (((ofProgression p).bars.map Bar.span).filter fun s => s.currentChord = j).flatMap
      SlotSpan.beats := by
  obtain ⟨b, hb, rfl⟩ := Option.map_eq_some_iff.mp (Except.ok.inj h)
  obtain rfl := (view_of_boundary hb).1
  exact beats_of_chord (List.mem_of_getElem? hb)

theorem change_of_span? {t : Timeline} {i j : Nat} {span : SlotSpan}
    (h : (Slot.transition i j).span? t Slot.usualLength = .ok (some span)) :
    ∃ b, t.boundaries[j]? = some b ∧ span = ⟨2, b.startBeat, b.startBeat + beatsPerBar - 1, i, j⟩ := by
  have usual : Slot.usualLength.truncate = .ok (beatsPerBar : Int) := rfl
  simp only [Slot.span?, usual] at h
  split at h
  · rename_i b _ hb
    exact ⟨b, hb, (Option.some.inj (Except.ok.inj h)).symm⟩
  · cases h

/-- A change of chords takes the first bar of the chord that it leads to. -/
theorem change_prefix {i j : Nat} (listed : .transition i j ∈ (ofProgression p).slots) :
    ∃ change chord, (Slot.transition i j).span? (ofProgression p) Slot.usualLength = .ok (some change) ∧
      (Slot.chord j).span? (ofProgression p) Slot.usualLength = .ok (some chord) ∧
      change.beats.length = beatsPerBar ∧ change.beats <+: chord.beats := by
  have usual : Slot.usualLength.truncate = .ok (beatsPerBar : Int) := rfl
  obtain ⟨-, change, hchange⟩ := (transition_mem_slots_iff usual).mp listed
  obtain ⟨b, hb, rfl⟩ := change_of_span? hchange
  have mem := List.mem_of_getElem? hb
  have onChord := span?_boundary mem Slot.usualLength
  rw [(view_of_boundary hb).1] at onChord
  have first : (SlotSpan.mk 2 b.startBeat (b.startBeat + beatsPerBar - 1) i j).beats =
      List.range' b.startBeat beatsPerBar := by
    simp only [SlotSpan.beats]
    congr 1
    omega
  have long := beatsPerBar_le_length_beats mem
  have rest : b.span.beats = List.range' b.startBeat beatsPerBar ++
      List.range' (b.startBeat + beatsPerBar) (b.span.beats.length - beatsPerBar) := by
    rw [List.range'_append_1, Nat.add_sub_cancel' long, SlotSpan.beats, List.length_range']
    rfl
  refine ⟨_, b.span, hchange, onChord, ?_, ?_⟩
  · rw [first, List.length_range']
  · rw [first, rest]
    exact List.prefix_append _ _

/-! ### What the slots say -/

/-- The slots of a timeline and their spans, against its beats. -/
structure SlotsFit (t : Timeline) : Prop where
  nodup : t.slots.Nodup
  place : ∀ (s : Slot) (length : Amount), s.kind ≠ "transition" →
    (s ∈ t.slots ↔ ∃ span, s.span? t length = .ok (some span))
  change : ∀ (i j : Nat) (length : Amount) (beats : Int), length.truncate = .ok beats →
    (.transition i j ∈ t.slots ↔
      j = i + 1 ∧ ∃ span, (Slot.transition i j).span? t length = .ok (some span))
  /-- The spans of the bars, one after another, are all beats, and so are those of the chords; the beats
  of a chord are those of the bars at which it is the current one. -/
  tiled : ∀ length : Amount, ∃ bars chords : List SlotSpan,
    (t.slots.filter (·.kind = "bar")).mapM (·.span? t length) = .ok (bars.map some) ∧
    (t.slots.filter (·.kind = "chord")).mapM (·.span? t length) = .ok (chords.map some) ∧
    bars.flatMap SlotSpan.beats = List.range' 1 t.totalBeats ∧
    chords.flatMap SlotSpan.beats = List.range' 1 t.totalBeats ∧
    (∀ span ∈ bars ++ chords, span.beats ≠ []) ∧
    ∀ (j : Nat) (span : SlotSpan), (Slot.chord j).span? t length = .ok (some span) →
      span.beats = (bars.filter fun s => s.currentChord = j).flatMap SlotSpan.beats
  whole : ∀ length : Amount, ∃ span, Slot.global.span? t length = .ok (some span) ∧
    span.beats = List.range' 1 t.totalBeats
  last : ∀ (length : Amount) (span : SlotSpan), Slot.lastChord.span? t length = .ok (some span) →
    ∃ n chord, t.boundaries.length = n + 1 ∧ (Slot.chord n).span? t length = .ok (some chord) ∧
      span.startBeat = chord.startBeat ∧ span.endBeat = chord.endBeat ∧
      span.currentChord = chord.currentChord
  arrival : ∀ i j : Nat, .transition i j ∈ t.slots → ∃ change chord,
    (Slot.transition i j).span? t Slot.usualLength = .ok (some change) ∧
    (Slot.chord j).span? t Slot.usualLength = .ok (some chord) ∧
    change.beats.length = beatsPerBar ∧ change.beats <+: chord.beats

theorem slots_fit (p : Progression) : SlotsFit (ofProgression p) where
  nodup := nodup_slots p
  place s length place := mem_slots_iff place length
  change i j length beats h := transition_mem_slots_iff h
  tiled length := by
    refine ⟨_, _, mapM_span?_bars p length, mapM_span?_boundaries p length, flatMap_bars p,
      flatMap_boundaries p, ?_, fun j span => beats_of_span?_chord⟩
    intro span hspan
    rcases List.mem_append.mp hspan with bar | chord
    · obtain ⟨b, hb, rfl⟩ := List.mem_map.mp bar
      exact beats_ne_nil_of_bar hb
    · obtain ⟨b, hb, rfl⟩ := List.mem_map.mp chord
      have long := beatsPerBar_le_length_beats hb
      intro empty
      rw [empty] at long
      exact absurd long (by decide)
  whole length := by
    refine ⟨_, rfl, ?_⟩
    simp only [SlotSpan.beats]
    congr 1
    omega
  last length span h := by
    have listed := (mem_slots_iff (by decide) length).mpr ⟨span, h⟩
    obtain ⟨n, hn⟩ : ∃ n, p.chords.length = n + 1 := by
      refine Nat.exists_eq_succ_of_ne_zero fun empty => ?_
      rw [slots_ofProgression, if_pos empty] at listed
      simp at listed
    obtain ⟨b, -, onLast, onChord⟩ := span?_lastChord hn length
    rw [onLast] at h
    obtain rfl := Option.some.inj (Except.ok.inj h)
    exact ⟨n, _, (length_boundaries p).trans hn, onChord, rfl, rfl, rfl⟩
  arrival i j := change_prefix

end Timeline

end Ostinato
