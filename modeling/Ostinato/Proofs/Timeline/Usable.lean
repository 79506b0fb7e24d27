import Ostinato.Proofs.Harmony.SymbolGrammar
import Ostinato.Proofs.Record.Acceptance
import Ostinato.Proofs.Timeline.Chart

/-!
# Charts that can be used

Any text may stand for a bar of a chart, but a chord has to have a degree. What is written of a chord
symbol is never empty, and a text that is no symbol is the degree itself: only the empty text has none.
-/

namespace Ostinato

open Success

namespace Chart

/-! ### Chords with a degree -/

/-- The rejection of a chord without a degree. -/
def silentBar : Rejection := ⟨Chord.title, [⟨[.key "degree"], .emptyText, .text ""⟩]⟩

theorem chordOf_empty : chordOf "" = .error silentBar := rfl

theorem exists_chordOf {symbol : String} (h : symbol ≠ "") :
    ∃ c, chordOf symbol = .ok c ∧ c.degree ≠ "" := by
  unfold chordOf
  cases hs : ChordSymbol.read? symbol with
  | some parts =>
    refine ⟨_, rfl, fun none => ?_⟩
    exact (ChordSymbol.spelled_of_read? hs).degree_ne_nil (String.toList_eq_nil_iff.mpr none)
  | none =>
    have named : ((Codec.name.decode (.text symbol)).under (.key "degree")) = .ok symbol :=
      Checked.under_eq_ok.mpr (Codec.accepts_name h)
    exact ⟨⟨symbol, none, Count.one⟩,
      Checked.orReject_eq_ok.mpr (Checked.map_eq_ok.mpr ⟨symbol, named, rfl⟩), h⟩

/-! ### Runs of bars -/

theorem exists_chordsAfter {rest : List String} (solid : ∀ s ∈ rest, s ≠ "") (symbol : String) (chord : Chord)
    (h : chord.degree ≠ "") :
    ∃ chords, chordsAfter symbol chord rest = .ok chords ∧ ∀ c ∈ chords, c.degree ≠ "" := by
  induction rest generalizing symbol chord with
  | nil => exact ⟨[chord], rfl, List.forall_mem_singleton.mpr h⟩
  | cons next rest ih =>
    obtain ⟨here, later⟩ := List.forall_mem_cons.mp solid
    rw [chordsAfter]
    split_ifs with same
    · exact ih later symbol chord.holdLonger h
    · obtain ⟨following, made, named⟩ := exists_chordOf here
      obtain ⟨others, hothers, all⟩ := ih later next following named
      exact ⟨chord :: others, bind_eq_ok.mpr ⟨following, made, bind_eq_ok.mpr ⟨others, hothers, rfl⟩⟩,
        List.forall_mem_cons.mpr ⟨h, all⟩⟩

theorem chordsAfter_of_silent {rest : List String} (silent : "" ∈ rest) {symbol : String} (h : symbol ≠ "")
    (chord : Chord) : chordsAfter symbol chord rest = .error silentBar := by
  induction rest generalizing symbol chord with
  | nil => cases silent
  | cons next rest ih =>
    rw [chordsAfter]
    by_cases empty : next = ""
    · subst empty
      rw [if_neg (Ne.symm h), chordOf_empty]
      rfl
    · have later : "" ∈ rest := (List.mem_cons.mp silent).resolve_left (Ne.symm empty)
      split_ifs with same
      · exact ih later h chord.holdLonger
      · obtain ⟨following, made, -⟩ := exists_chordOf empty
        have rest := ih later empty following
        simp only [made, rest, bind, Except.bind]

theorem exists_chords {symbols : List String} (solid : ∀ s ∈ symbols, s ≠ "") :
    ∃ chords, Chart.chords symbols = .ok chords ∧ ∀ c ∈ chords, c.degree ≠ "" := by
  cases symbols with
  | nil => exact ⟨[], rfl, List.forall_mem_nil _⟩
  | cons symbol rest =>
    obtain ⟨first, later⟩ := List.forall_mem_cons.mp solid
    obtain ⟨chord, made, named⟩ := exists_chordOf first
    obtain ⟨chords, hchords, all⟩ := exists_chordsAfter later symbol chord named
    exact ⟨chords, bind_eq_ok.mpr ⟨chord, made, hchords⟩, all⟩

theorem chords_of_silent {symbols : List String} (silent : "" ∈ symbols) :
    Chart.chords symbols = .error silentBar := by
  cases symbols with
  | nil => cases silent
  | cons symbol rest =>
    rw [Chart.chords]
    by_cases empty : symbol = ""
    · rw [empty, chordOf_empty]
      rfl
    · obtain ⟨chord, made, -⟩ := exists_chordOf empty
      have later : "" ∈ rest := (List.mem_cons.mp silent).resolve_left (Ne.symm empty)
      rw [made]
      exact chordsAfter_of_silent later empty chord

/-! ### Charts and their progressions -/

theorem id_ne_empty {d : Datum} {chart : Chart} (h : codec.decode d = .ok chart) : chart.id ≠ "" := by
  obtain ⟨_, _, tillBars, -, rfl⟩ := Checked.apply_eq_ok.mp (Codec.read_of_decode h)
  obtain ⟨_, _, tillTags, -, rfl⟩ := Checked.apply_eq_ok.mp tillBars
  obtain ⟨_, _, tillId, -, rfl⟩ := Checked.apply_eq_ok.mp tillTags
  obtain ⟨id, given, rfl⟩ := Checked.map_eq_ok.mp tillId
  obtain ⟨_, named⟩ := Field.decode_of_required given
  exact Codec.ne_empty_of_name named

/-- A chart can be used if no bar of it is the empty text, and only then: with any other texts for bars it
becomes a progression and a timeline of as many bars, and both pass the checks of their types. -/
theorem usable_unless_silent {d : Datum} {chart : Chart} (h : codec.decode d = .ok chart) (key : String) :
    ("" ∉ chart.bars.val → ∃ p, chart.toProgression key = .ok p ∧ Progression.codec.Accepts p ∧
      Timeline.codec.Accepts (Timeline.ofProgression p) ∧
      (Timeline.ofProgression p).bars.length = chart.bars.val.length) ∧
    ("" ∈ chart.bars.val → chart.toProgression key = .error silentBar) := by
  constructor
  · intro solid
    obtain ⟨chords, made, named⟩ := exists_chords fun s hs empty => solid (empty ▸ hs)
    let p : Progression := ⟨chart.id, key, chords, chart.genreTags, chart.description⟩
    have built : chart.toProgression key = .ok p := bind_eq_ok.mpr ⟨chords, made, rfl⟩
    have bars := congrArg List.length (map_chordDegree_bars built)
    rw [List.length_map, List.length_map] at bars
    exact ⟨p, built, Progression.accepts (id_ne_empty h) named, Timeline.accepts_ofProgression p, bars⟩
  · intro silent
    rw [toProgression, chords_of_silent silent]
    rfl

/-- Bars with no root: a blank, a numeral that goes on in another line, and an accidental of its own. -/
def oddBars : Chart := ⟨"odd", [], ⟨[" ", "V\n7", "V\n7", "#"], by decide⟩, ""⟩

theorem oddBars_usable :
    codec.decode (codec.encode oddBars) = .ok oddBars ∧
      ∃ p, oddBars.toProgression "" = .ok p ∧ Progression.codec.Accepts p ∧
        Timeline.codec.Accepts (Timeline.ofProgression p) ∧ (Timeline.ofProgression p).bars.length = 4 :=
  ⟨rfl, (usable_unless_silent (d := codec.encode oddBars) rfl "").1 (by decide)⟩

/-- A chart of one bar that is the empty text. -/
def silent : Chart := ⟨"silent-bar", [], ⟨[""], by decide⟩, ""⟩

theorem silent_not_usable : ¬ ∀ (d : Datum) (chart : Chart), codec.decode d = .ok chart →
    ∀ key, ∃ p, chart.toProgression key = .ok p := by
  intro usable
  obtain ⟨p, made⟩ := usable (codec.encode silent) silent rfl "C"
  cases made

end Chart

end Ostinato
