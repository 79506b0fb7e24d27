import Ostinato.Catalog.Basic

/-!
# The bundled catalog

Progressions, rules, riffs, scales and licks for blues, pop, jazz and country.
-/

namespace Ostinato.Catalog

/-! ### Progressions -/

def bundledCharts : List Chart := [
  { id := "blues-12bar"
    genreTags := ["blues"]
    bars := ⟨["I7", "I7", "I7", "I7", "IV7", "IV7", "I7", "I7", "V7", "IV7", "I7", "V7"], by decide⟩
    description := "Standard 12-bar blues progression" },
  { id := "blues-8bar"
    genreTags := ["blues"]
    bars := ⟨["I7", "IV7", "I7", "I7", "IV7", "IV7", "I7", "V7"], by decide⟩
    description := "8-bar blues variation" },
  { id := "pop-vi-IV-I-V"
    genreTags := ["pop"]
    bars := ⟨["vi", "IV", "I", "V"], by decide⟩
    description := "Common pop progression (vi-IV-I-V)" },
  { id := "pop-I-V-vi-IV"
    genreTags := ["pop"]
    bars := ⟨["I", "V", "vi", "IV"], by decide⟩
    description := "Four-chord progression (I-V-vi-IV)" }]

/-- A chord without a quality, for one bar. -/
def plain (degree : String) : Chord := ⟨degree, none, Count.one⟩

/-- A chord with a quality, for some bars more than one. -/
def chord (degree quality : String) (further : Nat) : Chord :=
  ⟨degree, some quality, ⟨further + 1, Nat.le_add_left 1 further⟩⟩

def bundledProgressions : List Progression := [
  { id := "I_IV_V_I"
    key := "C"
    chords := [plain "I", plain "IV", plain "V", plain "I"]
    genreTags := ["pop", "country", "blues"]
    description := "Plain cadence, one bar per chord" },
  { id := "I_V_vi_IV"
    key := "G"
    chords := [plain "I", plain "V", chord "VI" "m" 0, plain "IV"]
    genreTags := ["pop"]
    description := "Four-chord pop loop" },
  { id := "ii_V_I"
    key := "F"
    chords := [chord "II" "m7" 0, chord "V" "7" 0, chord "I" "maj7" 1]
    genreTags := ["jazz"]
    description := "Jazz turnaround resolving for two bars" },
  { id := "blues_12bar"
    key := "A"
    chords := [chord "I" "7" 3, chord "IV" "7" 1, chord "I" "7" 1, chord "V" "7" 0, chord "IV" "7" 0,
      chord "I" "7" 0, chord "V" "7" 0]
    genreTags := ["blues"]
    description := "12-bar blues with held chords" }]

/-! ### Atomic rules -/

def bundledRules : List Rule := [
  { id := "bass-blues-anchor-beat1"
    part := .bass
    genreTags := ["blues"]
    minLevel := 1
    maxLevel := none
    role := .anchor
    affects := .targetTone
    trigger := .beat1
    action := "play root of current chord"
    weight := none },
  { id := "bass-blues-preference-beat3"
    part := .bass
    genreTags := ["blues"]
    minLevel := 1
    maxLevel := none
    role := .preference
    affects := .targetTone
    trigger := .beat3
    action := "prefer 5th or root"
    weight := some (.ofRat (7 / 10)) },
  { id := "bass-blues-constraint-rhythm"
    part := .bass
    genreTags := ["blues"]
    minLevel := 1
    maxLevel := none
    role := .constraint
    affects := .rhythm
    trigger := .always
    action := "quarter notes only"
    weight := none },
  { id := "bass-blues-embellishment-walk"
    part := .bass
    genreTags := ["blues"]
    minLevel := 2
    maxLevel := none
    role := .embellishment
    affects := .motion
    trigger := .chordChange
    action := "allow walking bass line"
    weight := some (.ofRat (1 / 2)) },
  { id := "bass-pop-anchor-beat1"
    part := .bass
    genreTags := ["pop"]
    minLevel := 1
    maxLevel := none
    role := .anchor
    affects := .targetTone
    trigger := .beat1
    action := "play root of current chord"
    weight := none },
  { id := "bass-pop-preference-beat3"
    part := .bass
    genreTags := ["pop"]
    minLevel := 1
    maxLevel := none
    role := .preference
    affects := .targetTone
    trigger := .beat3
    action := "prefer 5th"
    weight := some (.ofRat (8 / 10)) },
  { id := "lead-blues-constraint-scale"
    part := .lead
    genreTags := ["blues"]
    minLevel := 1
    maxLevel := none
    role := .constraint
    affects := .targetTone
    trigger := .always
    action := "use minor pentatonic scale"
    weight := none },
  { id := "lead-blues-preference-resolution"
    part := .lead
    genreTags := ["blues"]
    minLevel := 1
    maxLevel := none
    role := .preference
    affects := .targetTone
    trigger := .chordChange
    action := "prefer chord tones"
    weight := some (.ofRat (6 / 10)) }]

/-! ### Riffs -/

def pulse (startBeat : RiffBeat) (basis : PitchBasis) (offset : Int) (hint : String) : RiffEvent :=
  ⟨startBeat, Duration.beat, ⟨basis, offset, some hint⟩, none⟩

def beat1 : RiffBeat := RiffBeat.first
def beat2 : RiffBeat := ⟨.finite 2, by decide⟩
def beat3 : RiffBeat := ⟨.finite 3, by decide⟩
def beat4 : RiffBeat := ⟨.finite 4, by decide⟩

/-- Four beats. -/
def fourBeats : Duration := ⟨.finite 4, by decide⟩

def bundledRiffs : List Riff := [
  { id := "chord_root_hold"
    length := fourBeats
    events := [⟨beat1, fourBeats, ⟨.currentChord, 0, some "1"⟩, none⟩]
    explanation := "Sustain the current chord root for the full bar." },
  { id := "oom_pah_I_V"
    length := fourBeats
    events := [pulse beat1 .currentChord 0 "1", pulse beat3 .currentChord 7 "5"]
    explanation := "Classic oom-pah pattern: root on beat 1, fifth on beat 3." },
  { id := "root_pulse"
    length := fourBeats
    events := [pulse beat1 .chordTone 0 "1", pulse beat2 .chordTone 0 "1", pulse beat3 .chordTone 0 "1",
      pulse beat4 .chordTone 0 "1"]
    explanation := "Root on every beat." },
  { id := "approach_next_root"
    length := fourBeats
    events := [pulse beat1 .chordTone 0 "1", pulse beat2 .chordTone 0 "3", pulse beat3 .chordTone 0 "5",
      pulse beat4 .nextChord (-1) "1"]
    explanation := "Root, third and fifth, then a semitone under the next chord root." }]

/-! ### Rich rules -/

def choice (values : List String) (default description : String) : ParameterSpec :=
  ⟨.choice, some values, none, none, .text default, description⟩

def bundledWalkParameters : List (String × ParameterSpec) := [
  ("target", choice ["nextChordRoot", "currentChordRoot"] "nextChordRoot" "Where the walk ends"),
  ("steps", ⟨.integer, none, some 1, some 5, .number 2, "Number of intermediate walk steps"⟩),
  ("direction", choice ["auto", "up", "down"] "auto" "Walk direction (auto = shortest)"),
  ("approachStrategy", choice ["chromatic", "diatonic", "mixed"] "chromatic"
    "How intermediate tones are chosen"),
  ("register", choice ["low", "mid", "high"] "low" "Register of the walk"),
  ("genreProfile", choice ["blues", "jazz", "country", "custom"] "custom" "Stylistic defaults")]

def playing (id name description riff : String) (tags : List String) (register : Option String) :
    RichRule where
  id := id
  name := name
  description := description
  riffId := some riff
  category := .normal
  tags := tags
  defaultRegister := register
  parameters := []
  genreProfiles := []
  template := none
  resolutionRules := []

def bundledWalk : RichRule where
  id := "walk_to_next_chord"
  name := "Walk to Next Chord"
  description := "Stepwise walk from the current chord root into the next chord"
  riffId := none
  category := .walk
  tags := ["bass", "walk", "blues", "jazz", "country"]
  defaultRegister := some "low"
  parameters := bundledWalkParameters
  genreProfiles := [
    ("blues", ⟨.chromatic, "Chromatic passing tones"⟩),
    ("jazz", ⟨.chromatic, "Chromatic enclosures"⟩),
    ("country", ⟨.diatonic, "Scale-wise walks"⟩),
    ("custom", ⟨.mixed, "No stylistic bias"⟩)]
  template := some {
    length := ⟨5, by decide⟩
    events := [
      ⟨⟨1, by decide⟩, 0, .startAnchor, none, some "currentChordRoot"⟩,
      ⟨⟨2, by decide⟩, 0, .walkStep, some 1, none⟩,
      ⟨⟨3, by decide⟩, 0, .walkStep, some 2, none⟩,
      ⟨⟨4, by decide⟩, 0, .approachTone, none, none⟩,
      ⟨⟨1, by decide⟩, 1, .targetAnchor, none, some "targetChordRoot"⟩] }
  resolutionRules := [
    "start on the current chord root",
    "land on the target root on the next downbeat"]

def bundledRichRules : List RichRule := [
  playing "default_root_hold" "Root Hold" "Hold the chord root for the whole bar" "chord_root_hold"
    ["bass", "basic", "sustain"] (some "low"),
  playing "oom_pah_rule" "Oom-Pah" "Root on beat 1, fifth on beat 3" "oom_pah_I_V"
    ["bass", "country", "polka"] (some "low"),
  playing "root_pulse_rule" "Root Pulse" "Quarter-note roots" "root_pulse"
    ["bass", "rock", "basic"] none,
  playing "approach_rule" "Chromatic Approach" "Arpeggio ending a semitone below the next chord"
    "approach_next_root" ["bass", "approach"] (some "low"),
  bundledWalk]

/-! ### Scales and licks -/

def bundledScales : List Scale := [
  ⟨"minor-pentatonic", ["1", "b3", "4", "5", "b7"]⟩,
  ⟨"major-pentatonic", ["1", "2", "3", "5", "6"]⟩,
  ⟨"blues-scale", ["1", "b3", "4", "b5", "5", "b7"]⟩,
  ⟨"major", ["1", "2", "3", "4", "5", "6", "7"]⟩,
  ⟨"minor", ["1", "2", "b3", "4", "5", "b6", "b7"]⟩]

def note (degree : String) (duration : Rat) : LickNote := ⟨degree, 0, .finite duration⟩

def bundledLicks : List Lick := [
  { id := "blues-l1-lick1"
    genreTags := ["blues"]
    level := 1
    notes := [note "1" (1 / 2), note "b3" (1 / 2), note "4" (1 / 2), note "5" (1 / 2)]
    explanation := "Simple ascending minor pentatonic pattern" },
  { id := "blues-l1-lick2"
    genreTags := ["blues"]
    level := 1
    notes := [note "5" (1 / 2), note "b7" (1 / 2), ⟨"1", 1, .finite 1⟩]
    explanation := "Descending pattern resolving to octave" },
  { id := "blues-l2-lick1"
    genreTags := ["blues"]
    level := 2
    notes := [note "1" (1 / 4), note "b3" (1 / 4), note "4" (1 / 4), note "b5" (1 / 4), note "5" (1 / 2)]
    explanation := "Blues scale run with blue note" },
  { id := "pop-l1-lick1"
    genreTags := ["pop"]
    level := 1
    notes := [note "1" (1 / 2), note "3" (1 / 2), note "5" 1]
    explanation := "Simple major triad arpeggio" }]

/-- The catalog that is used where no other one is given. -/
def bundled : Catalog :=
  ⟨bundledCharts, bundledProgressions, bundledRules, bundledRichRules, bundledRiffs, bundledScales,
    bundledLicks⟩

end Ostinato.Catalog
