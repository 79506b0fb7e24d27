import Ostinato.Proofs.Harmony.ChordSpelling
import Ostinato.Proofs.Success
import Ostinato.Proofs.Timeline.Layout

/-!
# Charts on the timeline

A chart becomes a progression with one chord for each run of bars that have one symbol. Spread over a
timeline, its bars are those of the chart again: each has the degree of its symbol, and two neighbours
share a chord only where they share their symbol.
-/

namespace Ostinato

open Success

/-- The quality that a chord symbol tells, if it tells one. -/
def chordQuality? (symbol : String) : Option String :=
  (ChordSymbol.read? symbol).bind fun c => if c.quality = "" then none else some c.quality

/-- Degree and quality of a chord symbol. -/
def chordSound (symbol : String) : String × Option String := (chordDegree symbol, chordQuality? symbol)

theorem Codec.decode_name_eq_ok {s t : String} : name.decode (.text s) = .ok t ↔ s ≠ "" ∧ s = t := by
  simp only [name]
  split_ifs with empty <;> simp [Checked.fault, empty]

namespace Chord

/-- Degree and quality of a chord, once for each bar that it is held. -/
def inBars (c : Chord) : List (String × Option String) := List.replicate c.held.val (c.degree, c.quality)

theorem inBars_holdLonger (c : Chord) : c.holdLonger.inBars = c.inBars ++ [(c.degree, c.quality)] :=
  List.replicate_succ'

theorem map_root_inBars (c : Chord) :
    c.inBars.map (fun x => chordDegree x.1) = List.replicate c.held.val c.root := List.map_replicate

end Chord

namespace Timeline

theorem map_chordDegree_barsFrom (k b : Nat) (chords : List Chord) :
    (barsFrom k b chords).map (·.chordDegree) =
      (chords.flatMap Chord.inBars).map fun x => chordDegree x.1 := by
  induction chords generalizing k b with
  | nil => rfl
  | cons c rest ih =>
    rw [barsFrom, List.map_append, ih, List.flatMap_cons, List.map_append, c.map_root_inBars]
    simp [Function.comp_def]

theorem map_chordIndex_barsFrom_cons (k b : Nat) (c : Chord) (rest : List Chord) :
    (barsFrom k b (c :: rest)).map (·.chordIndex) =
      List.replicate c.held.val k ++ (barsFrom (k + 1) (b + c.held.val) rest).map (·.chordIndex) := by
  rw [barsFrom, List.map_append]
  simp [Function.comp_def]

end Timeline

namespace Chart

/-! ### Chords of runs -/

theorem eq_of_chordOf {symbol : String} {c : Chord} (h : chordOf symbol = .ok c) :
    (c.degree, c.quality) = chordSound symbol ∧ c.held = Count.one := by
  unfold chordOf at h
  cases hs : ChordSymbol.read? symbol with
  | some parts =>
    rw [hs] at h
    obtain rfl := Except.ok.inj h
    simp [chordSound, chordDegree, chordQuality?, hs]
  | none =>
    rw [hs] at h
    obtain ⟨degree, named, rfl⟩ := Checked.map_eq_ok.mp (Checked.orReject_eq_ok.mp h)
    obtain ⟨-, rfl⟩ := Codec.decode_name_eq_ok.mp (Checked.under_eq_ok.mp named)
    simp [chordSound, chordDegree, chordQuality?, hs]

/-- The chords of further bars, spread over their bars: the chord that is held, and the bars themselves. -/
theorem inBars_chordsAfter {symbol : String} {chord : Chord} {rest : List String} {chords : List Chord}
    (h : chordsAfter symbol chord rest = .ok chords) (sound : (chord.degree, chord.quality) = chordSound symbol) :
    chords.flatMap Chord.inBars = chord.inBars ++ rest.map chordSound := by
  -- the chord that is held is still open: it takes in the next bar or is closed by it
  induction rest generalizing symbol chord chords with
  | nil =>
    obtain rfl := Except.ok.inj h
    rw [List.flatMap_singleton, List.map_nil, List.append_nil]
  | cons next rest ih =>
    rw [chordsAfter] at h
    split_ifs at h with same
    · rw [ih h sound, Chord.inBars_holdLonger, sound, same, List.map_cons, List.append_assoc,
        List.singleton_append]
    · obtain ⟨following, made, h⟩ := bind_eq_ok.mp h
      obtain ⟨others, hothers, h⟩ := bind_eq_ok.mp h
      obtain rfl := pure_eq_ok.mp h
      obtain ⟨sound', held⟩ := eq_of_chordOf made
      have once : following.inBars = [chordSound next] := by
        rw [Chord.inBars, sound', held]
        rfl
      rw [List.flatMap_cons, ih hothers sound', once, List.map_cons, List.singleton_append]

theorem inBars_chords {symbols : List String} {chords : List Chord} (h : Chart.chords symbols = .ok chords) :
    chords.flatMap Chord.inBars = symbols.map chordSound := by
  cases symbols with
  | nil =>
    obtain rfl := Except.ok.inj h
    rfl
  | cons symbol rest =>
    obtain ⟨chord, made, h⟩ := bind_eq_ok.mp h
    obtain ⟨sound, held⟩ := eq_of_chordOf made
    rw [inBars_chordsAfter h sound, Chord.inBars, sound, held]
    rfl

/-! ### Numbers of runs -/

/-- The number of the run that each of further bars belongs to, after a run with its number. -/
def runsAfter (number : Nat) (symbol : String) : List String → List Nat
  | [] => []
  | next :: rest =>
    if next = symbol then number :: runsAfter number symbol rest
    else (number + 1) :: runsAfter (number + 1) next rest

theorem chordIndexes_chordsAfter {symbol : String} {chord : Chord} {rest : List String}
    {chords : List Chord} (h : chordsAfter symbol chord rest = .ok chords) (k b : Nat) :
    (Timeline.barsFrom k b chords).map (·.chordIndex) =
      List.replicate chord.held.val k ++ runsAfter k symbol rest := by
  induction rest generalizing symbol chord chords k b with
  | nil =>
    obtain rfl := Except.ok.inj h
    exact Timeline.map_chordIndex_barsFrom_cons k b chord []
  | cons next rest ih =>
    rw [chordsAfter] at h
    split_ifs at h with same
    · have longer : List.replicate chord.holdLonger.held.val k = List.replicate chord.held.val k ++ [k] :=
        List.replicate_succ'
      rw [ih h, longer, List.append_assoc, List.singleton_append, runsAfter, if_pos same]
    · obtain ⟨following, made, h⟩ := bind_eq_ok.mp h
      obtain ⟨others, hothers, h⟩ := bind_eq_ok.mp h
      obtain rfl := pure_eq_ok.mp h
      have once : List.replicate following.held.val (k + 1) = [k + 1] := by
        rw [(eq_of_chordOf made).2]
        rfl
      rw [Timeline.map_chordIndex_barsFrom_cons, ih hothers, once, List.singleton_append, runsAfter,
        if_neg same]

/-- Two neighbouring bars are in one run exactly if they have one symbol. -/
theorem same_run_iff {number : Nat} {symbol : String} {rest : List String} {i m n : Nat} {s u : String}
    (hm : (number :: runsAfter number symbol rest)[i]? = some m)
    (hn : (number :: runsAfter number symbol rest)[i + 1]? = some n)
    (hs : (symbol :: rest)[i]? = some s) (hu : (symbol :: rest)[i + 1]? = some u) : m = n ↔ s = u := by
  induction rest generalizing number symbol i with
  | nil => simp at hu
  | cons next rest ih =>
    rw [List.getElem?_cons_succ] at hn hu
    rw [runsAfter] at hm hn
    cases i with
    | zero =>
      obtain rfl := Option.some.inj hm
      obtain rfl := Option.some.inj hs
      obtain rfl := Option.some.inj hu
      split_ifs at hn with same <;> obtain rfl := Option.some.inj hn
      · simp [same]
      · simp [Ne.symm same]
    | succ i =>
      rw [List.getElem?_cons_succ] at hm hs
      split_ifs at hm hn with same
      · subst same
        exact ih hm hn hs hu
      · exact ih hm hn hs hu

/-! ### Charts and their timelines -/

theorem exists_chords_of_toProgression {chart : Chart} {key : String} {p : Progression}
    (h : chart.toProgression key = .ok p) : Chart.chords chart.bars.val = .ok p.chords := by
  obtain ⟨chords, made, h⟩ := bind_eq_ok.mp h
  obtain rfl := pure_eq_ok.mp h
  exact made

theorem map_chordDegree_bars {chart : Chart} {key : String} {p : Progression}
    (h : chart.toProgression key = .ok p) :
    (Timeline.ofProgression p).bars.map (·.chordDegree) = chart.bars.val.map chordDegree := by
  rw [Timeline.ofProgression, Timeline.map_chordDegree_barsFrom,
    inBars_chords (exists_chords_of_toProgression h), List.map_map]
  refine List.map_congr_left fun s _ => ?_
  rw [Function.comp_apply, chordSound, chordDegree_chordDegree]

theorem same_chord_iff {chart : Chart} {key : String} {p : Progression}
    (h : chart.toProgression key = .ok p) {i : Nat} {b d : Bar} {s u : String}
    (hb : (Timeline.ofProgression p).bars[i]? = some b)
    (hd : (Timeline.ofProgression p).bars[i + 1]? = some d) (hs : chart.bars.val[i]? = some s)
    (hu : chart.bars.val[i + 1]? = some u) : b.chordIndex = d.chordIndex ↔ s = u := by
  have made := exists_chords_of_toProgression h
  generalize chart.bars.val = symbols at made hs hu
  cases symbols with
  | nil => cases hs
  | cons symbol rest =>
    obtain ⟨chord, first, made⟩ := bind_eq_ok.mp made
    have indexes := chordIndexes_chordsAfter made 0 0
    rw [(eq_of_chordOf first).2] at indexes
    have number {j : Nat} {bar : Bar} (hbar : (Timeline.ofProgression p).bars[j]? = some bar) :
        (0 :: runsAfter 0 symbol rest)[j]? = some bar.chordIndex := by
      have found := congrArg (Option.map (·.chordIndex)) hbar
      rwa [Timeline.ofProgression, ← List.getElem?_map, indexes] at found
    exact same_run_iff (number hb) (number hd) hs hu

/-- A progression and its timeline keep every bar of the chart: degree and quality of its symbol, and the
chord that it shares with the bar before exactly if both have the same symbol. -/
theorem every_bar_kept {chart : Chart} {key : String} {p : Progression}
    (h : chart.toProgression key = .ok p) :
    (Timeline.ofProgression p).bars.length = chart.bars.val.length ∧
    (Timeline.ofProgression p).bars.map (·.chordDegree) = chart.bars.val.map chordDegree ∧
    p.chords.flatMap Chord.inBars = chart.bars.val.map chordSound ∧
    ∀ (i : Nat) (b d : Bar) (s u : String), (Timeline.ofProgression p).bars[i]? = some b →
      (Timeline.ofProgression p).bars[i + 1]? = some d → chart.bars.val[i]? = some s →
      chart.bars.val[i + 1]? = some u → (b.chordIndex = d.chordIndex ↔ s = u) := by
  have degrees := map_chordDegree_bars h
  refine ⟨?_, degrees, inBars_chords (exists_chords_of_toProgression h), ?_⟩
  · simpa only [List.length_map] using congrArg List.length degrees
  · exact fun i b d s u hb hd hs hu => same_chord_iff h hb hd hs hu

/-! ### A turnaround -/

/-- Two bars of one symbol, a symbol without a root, and one chord in two spellings. -/
def turnaround : Chart := ⟨"turnaround", [], ⟨["vi7", "vi7", "X", " VI", "VI"], by decide⟩, ""⟩

def turnaroundChords : List Chord :=
  [⟨"VI", some "m7", ⟨2, by decide⟩⟩, ⟨"X", none, Count.one⟩, ⟨"VI", none, Count.one⟩,
    ⟨"VI", none, Count.one⟩]

theorem turnaround_kept :
    turnaround.toProgression "C" = .ok ⟨"turnaround", "C", turnaroundChords, [], ""⟩ ∧
      (Timeline.barsFrom 0 0 turnaroundChords).map (·.chordDegree) = ["VI", "VI", "X", "VI", "VI"] ∧
      (Timeline.barsFrom 0 0 turnaroundChords).map (·.chordIndex) = [0, 0, 1, 2, 3] := by
  have made : turnaround.toProgression "C" = .ok ⟨"turnaround", "C", turnaroundChords, [], ""⟩ :=
    ok_of_toOption (by decide +kernel)
  refine ⟨made, ?_, by decide +kernel⟩
  exact (every_bar_kept made).2.1.trans (by decide +kernel)

end Chart

end Ostinato
