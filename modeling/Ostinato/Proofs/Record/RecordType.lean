import Ostinato.Lick
import Ostinato.NoteEvent
import Ostinato.Session
import Ostinato.Timeline
import Ostinato.Walk
import Ostinato.Proofs.Record.Rereading
import Ostinato.Proofs.Success

/-!
# Record types

Sessions, catalogs and reports are made of records of some thirty types. Whatever a record of one of them
was read from, its written form is read as the same record.
-/

namespace Ostinato

/-! ### Progressions and timelines -/

theorem Chord.codec_rereads : Chord.codec.Rereads := by
  have echo := Echo.first Chord.mk (degreeField.required_rereads .name)
    |>.next (qualityField.orDefault_rereads none (.optional .text fun _ => nofun) rfl)
    |>.next (heldField.orDefault_rereads Count.one (.natFrom 1) rfl)
  exact .record echo (by decide) fun _ => rfl

theorem Progression.codec_rereads : Progression.codec.Rereads := by
  have echo := Echo.first Progression.mk (idField.required_rereads .name)
    |>.next (keyField.orDefault_rereads "C" .text rfl)
    |>.next (chordsField.orDefault_rereads [] Chord.codec_rereads.tuple rfl)
    |>.next (genreTagsField.orDefault_rereads [] (.tuple .text) rfl)
    |>.next (descriptionField.orDefault_rereads "" .text rfl)
  exact .record echo (by decide) fun _ => rfl

theorem Chart.codec_rereads : Chart.codec.Rereads := by
  have echo := Echo.first Chart.mk (idField.required_rereads .name)
    |>.next (genreTagsField.orDefault_rereads [] (.tuple .text) rfl)
    |>.next (barsField.required_rereads (.tupleOfSome .text))
    |>.next (descriptionField.orDefault_rereads "" .text rfl)
  exact .record echo (by decide) fun _ => rfl

theorem Bar.codec_rereads : Bar.codec.Rereads := by
  have echo := Echo.first Bar.mk (indexField.required_rereads .nat)
    |>.next (chordIndexField.required_rereads .nat)
    |>.next (chordDegreeField.required_rereads .text)
    |>.next (startBeatField.required_rereads (.natAtLeast 1))
    |>.next (beatsField.orDefault_rereads beatsPerBar .int rfl)
  exact .record echo (by decide) fun _ => rfl

theorem ChordBoundary.codec_rereads : ChordBoundary.codec.Rereads := by
  have echo := Echo.first ChordBoundary.mk (barIndexField.required_rereads .nat)
    |>.next (chordIndexField.required_rereads .nat)
    |>.next (chordDegreeField.required_rereads .text)
    |>.next (startBeatField.required_rereads (.natAtLeast 1))
    |>.next (endBeatField.required_rereads (.natAtLeast 1))
  exact .record echo (by decide) fun _ => rfl

theorem Timeline.codec_rereads : Timeline.codec.Rereads := by
  have echo := Echo.first Timeline.mk (keyField.orDefault_rereads "C" .text rfl)
    |>.next (barsField.orDefault_rereads [] Bar.codec_rereads.tuple rfl)
    |>.next (boundariesField.orDefault_rereads [] ChordBoundary.codec_rereads.tuple rfl)
  exact .record echo (by decide) fun _ => rfl

/-! ### Rules and riffs -/

theorem Trigger.codec_rereads : Trigger.codec.Rereads := by
  refine .after .word fun t => ?_
  cases t <;> rfl

theorem Rule.maxLevel_rereads : (Codec.after Rule.unbounded (.optional .int)).Rereads := by
  refine .after (.optional .int fun _ => nofun) fun greatest => ?_
  cases greatest <;> rfl

theorem Rule.codec_rereads : Rule.codec.Rereads := by
  have echo := Echo.first Rule.mk (idField.required_rereads .name)
    |>.next (partField.required_rereads .word)
    |>.next (genreTagsField.orDefault_rereads [] (.tuple .text) rfl)
    |>.next (minLevelField.orDefault_rereads 1 (.intAtLeast 1) rfl)
    |>.next (maxLevelField.orDefault_rereads none maxLevel_rereads rfl)
    |>.next (roleField.required_rereads .word)
    |>.next (affectsField.required_rereads .word)
    |>.next (triggerField.required_rereads Trigger.codec_rereads)
    |>.next (actionField.orDefault_rereads "" .text rfl)
    |>.next (weightField.orDefault_rereads none (.optional (.realAtLeast 0) fun _ => nofun) rfl)
  exact .record echo (by decide) fun _ => rfl

theorem PitchRef.codec_rereads : PitchRef.codec.Rereads := by
  have echo := Echo.first PitchRef.mk (basisField.required_rereads .word)
    |>.next (offsetField.orDefault_rereads 0 .int rfl)
    |>.next (degreeHintField.orDefault_rereads none (.optional .text fun _ => nofun) rfl)
  exact .record echo (by decide) fun _ => rfl

theorem RiffEvent.codec_rereads : RiffEvent.codec.Rereads := by
  have echo := Echo.first RiffEvent.mk (startBeatField.required_rereads (.realFrom 1))
    |>.next (durationField.required_rereads (.realAbove 0))
    |>.next (pitchRefField.required_rereads PitchRef.codec_rereads)
    |>.next (octaveStrategyField.orDefault_rereads none (.optional .text fun _ => nofun) rfl)
  exact .record echo (by decide) fun _ => rfl

theorem Riff.codec_rereads : Riff.codec.Rereads := by
  have echo := Echo.first Riff.mk (idField.required_rereads .name)
    |>.next (lengthField.required_rereads (.realAbove 0))
    |>.next (eventsField.orDefault_rereads [] RiffEvent.codec_rereads.tuple rfl)
    |>.next (explanationField.orDefault_rereads "" .text rfl)
  exact .record echo (by decide) fun _ => rfl

/-! ### Rules with parameters -/

theorem Setting.codec_rereads : Setting.codec.Rereads := by
  refine .of_decode_encode fun setting => ?_
  cases setting <;> rfl

theorem ParameterSpec.codec_rereads : ParameterSpec.codec.Rereads := by
  have echo := Echo.first ParameterSpec.mk (kindField.required_rereads .word)
    |>.next (valuesField.orDefault_rereads none (.optional (.tuple .text) fun _ => nofun) rfl)
    |>.next (leastField.orDefault_rereads none (.optional .int fun _ => nofun) rfl)
    |>.next (greatestField.orDefault_rereads none (.optional .int fun _ => nofun) rfl)
    |>.next (defaultField.required_rereads Setting.codec_rereads)
    |>.next (descriptionField.orDefault_rereads "" .text rfl)
  exact .record echo (by decide) fun _ => rfl

theorem GenreProfile.codec_rereads : GenreProfile.codec.Rereads := by
  have echo := Echo.first GenreProfile.mk (approachField.orDefault_rereads .mixed .word rfl)
    |>.next (descriptionField.orDefault_rereads "" .text rfl)
  exact .record echo (by decide) fun _ => rfl

theorem TemplateEvent.codec_rereads : TemplateEvent.codec.Rereads := by
  have echo := Echo.first TemplateEvent.mk (beatField.required_rereads (.intBetween 1 4))
    |>.next (barOffsetField.orDefault_rereads 0 .nat rfl)
    |>.next (roleField.required_rereads .word)
    |>.next (stepIndexField.orDefault_rereads none (.optional (.intAtLeast 1) fun _ => nofun) rfl)
    |>.next (noteSourceField.orDefault_rereads none (.optional .text fun _ => nofun) rfl)
  exact .record echo (by decide) fun _ => rfl

theorem WalkTemplate.codec_rereads : WalkTemplate.codec.Rereads := by
  have echo := Echo.first WalkTemplate.mk (lengthField.required_rereads (.intAbove 0))
    |>.next (eventsField.orDefault_rereads [] TemplateEvent.codec_rereads.tuple rfl)
  exact .record echo (by decide) fun _ => rfl

theorem RichRule.codec_rereads : RichRule.codec.Rereads := by
  have echo := Echo.first RichRule.mk (idField.required_rereads .name)
    |>.next (nameField.orDefault_rereads "" .text rfl)
    |>.next (descriptionField.orDefault_rereads "" .text rfl)
    |>.next (riffIdField.orDefault_rereads none (.optional .text fun _ => nofun) rfl)
    |>.next (categoryField.orDefault_rereads .normal .word rfl)
    |>.next (tagsField.orDefault_rereads [] (.tuple .text) rfl)
    |>.next (registerField.orDefault_rereads none (.optional .text fun _ => nofun) rfl)
    |>.next (parametersField.orDefault_rereads [] ParameterSpec.codec_rereads.mapOf rfl)
    |>.next (genreProfilesField.orDefault_rereads [] GenreProfile.codec_rereads.mapOf rfl)
    |>.next (templateField.orDefault_rereads none (WalkTemplate.codec_rereads.optional fun _ => nofun) rfl)
    |>.next (resolutionRulesField.orDefault_rereads [] (.tuple .text) rfl)
  exact .record echo (by decide) fun _ => rfl

theorem WalkParameters.codec_rereads : WalkParameters.codec.Rereads := by
  have echo := Echo.first WalkParameters.mk (targetField.orDefault_rereads .nextChordRoot .word rfl)
    |>.next (stepsField.orDefault_rereads ⟨2, by decide⟩ (.intBetween 1 5) rfl)
    |>.next (directionField.orDefault_rereads .auto .word rfl)
    |>.next (approachField.orDefault_rereads .chromatic .word rfl)
    |>.next (registerField.orDefault_rereads "low" .text rfl)
    |>.next (genreProfileField.orDefault_rereads "custom" .text rfl)
  exact .record echo (by decide) fun _ => rfl

/-! ### Slots -/

theorem Codec.decode_nat (n : Nat) : Codec.nat.decode (.int n) = .ok n := by
  have within : 0 ≤ (n : Int).toNat ∧ 0 ≤ (n : Int) := ⟨Nat.zero_le _, Int.natCast_nonneg n⟩
  simp only [nat, natAtLeast, widen, natFrom, int, Checked.bind, dif_pos within]
  rfl

namespace Slot

theorem readKind?_encode (s : Slot) : readKind? s.kind (codec.encode s) = some (.ok s) := by
  have placed (f : String) (n : Nat) : (Codec.nat.decode (.int n)).under (.key f) = .ok n := by
    rw [Codec.decode_nat]
    rfl
  cases s with
  | global => rfl
  | bar i => exact congrArg (fun x => some (bar <$> x)) (placed "index" i)
  | chord i => exact congrArg (fun x => some (chord <$> x)) (placed "index" i)
  | transition i j =>
    exact congrArg₂ (fun x y => some (transition <$> x <*> y)) (placed "from" i) (placed "to" j)
  | lastChord => rfl

theorem kind_of_readKind? {kind : String} {d : Datum} {s : Slot} (h : readKind? kind d = some (.ok s)) :
    s.kind = kind := by
  unfold readKind? at h
  split at h
  · cases h
    rfl
  · obtain ⟨i, -, rfl⟩ := Checked.map_eq_ok.mp (Option.some.inj h)
    rfl
  · obtain ⟨i, -, rfl⟩ := Checked.map_eq_ok.mp (Option.some.inj h)
    rfl
  · obtain ⟨g, j, hg, -, rfl⟩ := Checked.apply_eq_ok.mp (Option.some.inj h)
    obtain ⟨i, -, rfl⟩ := Checked.map_eq_ok.mp hg
    rfl
  · cases h
    rfl
  · cases h

/-- The record of a slot: a map that gives its kind and is read as the slot. -/
theorem exists_encode (s : Slot) : ∃ es, codec.encode s = .map es ∧
    (Datum.map es).get? "type" = some (.text s.kind) ∧ readKind? s.kind (.map es) = some (.ok s) :=
  ⟨_, rfl, rfl, readKind?_encode s⟩

theorem codec_rereads : codec.Rereads := by
  refine .of_decode_encode fun s => ?_
  obtain ⟨es, written, tag, read⟩ := exists_encode s
  rw [written]
  simp only [codec, decode, tag, read]
  rfl

theorem ofKind_rereads (kind : String) : (ofKind kind).Rereads where
  decode_encode d s h := by
    have same : s.kind = kind := by
      simp only [ofKind] at h
      split at h
      · split at h
        · rename_i slot read
          obtain ⟨g, s', hg, rfl, rfl⟩ := Checked.apply_eq_ok.mp h
          obtain ⟨-, -, rfl⟩ := Checked.map_eq_ok.mp hg
          exact kind_of_readKind? read
        · exact absurd h Checked.fault_ne_ok
      · exact absurd h Checked.fault_ne_ok
    subst same
    obtain ⟨es, written, tag, read⟩ := exists_encode s
    have tagged : (Field.single "type" (.word .notOption [s.kind] id)).orDefault s.kind (.map es) =
        .ok s.kind := by
      simp only [Field.orDefault, Field.find?, Field.single, List.findSome?_cons, tag, Option.map_some,
        Codec.word, List.find?_cons, Datum.isText, id, beq_self_eq_true]
      rfl
    change (ofKind s.kind).decode (codec.encode s) = .ok s
    rw [written]
    simp only [ofKind, read, tagged]
    rfl

end Slot

/-! ### Parts and bindings -/

theorem Part.codec_rereads : Part.codec.Rereads := by
  have echo := Echo.first Part.mk (idField.required_rereads .name)
    |>.next (nameField.orDefault_rereads "" .text rfl)
    |>.next (mutedField.orDefault_rereads false .bool rfl)
    |>.next (registerField.orDefault_rereads none (.optional .text fun _ => nofun) rfl)
  exact .record echo (by decide) fun _ => rfl

theorem AppliedRule.codec_rereads : AppliedRule.codec.Rereads := by
  have echo := Echo.first AppliedRule.mk (ruleIdField.required_rereads .name)
    |>.next (slotField.required_rereads Slot.codec_rereads)
    |>.next (partIdField.orDefault_rereads none (.optional .text fun _ => nofun) rfl)
    |>.next (registerField.orDefault_rereads none (.optional .text fun _ => nofun) rfl)
    |>.next (parametersField.orDefault_rereads none
      (Setting.codec_rereads.mapOf.optional fun _ => nofun) rfl)
  exact .record echo (by decide) fun _ => rfl

/-! ### Notes -/

theorem NoteEvent.codec_rereads : NoteEvent.codec.Rereads := by
  have echo := Echo.first NoteEvent.mk (startBeatField.required_rereads .real)
    |>.next (durationField.required_rereads .real)
    |>.next (degreeField.required_rereads .text)
    |>.next (octaveField.required_rereads .int)
    |>.next (partIdField.required_rereads .text)
    |>.next (partNameField.orDefault_rereads "" .text rfl)
  exact .record echo (by decide) fun _ => rfl

theorem BassNote.codec_rereads : BassNote.codec.Rereads := by
  have echo := Echo.first BassNote.mk (barField.required_rereads (.intAtLeast 1))
    |>.next (beatField.required_rereads (.intWithin 1 4))
    |>.next (degreeField.required_rereads .text)
    |>.next (octaveOffsetField.orDefault_rereads 0 .int rfl)
    |>.next (durationField.orDefault_rereads (.finite 1) .real rfl)
    |>.next (explanationField.orDefault_rereads "" .text rfl)
  exact .record echo (by decide) fun _ => rfl

theorem Scale.codec_rereads : Scale.codec.Rereads := by
  have echo := Echo.first Scale.mk (idField.required_rereads .text)
    |>.next (degreesField.required_rereads (.tuple .text))
  exact .record echo (by decide) fun _ => rfl

theorem LickNote.codec_rereads : LickNote.codec.Rereads := by
  have echo := Echo.first LickNote.mk (degreeField.required_rereads .text)
    |>.next (octaveOffsetField.orDefault_rereads 0 .int rfl)
    |>.next (durationField.required_rereads (.realMoreThan 0))
  exact .record echo (by decide) fun _ => rfl

theorem Lick.codec_rereads : Lick.codec.Rereads := by
  have echo := Echo.first Lick.mk (idField.required_rereads .text)
    |>.next (genreTagsField.orDefault_rereads [] (.tuple .text) rfl)
    |>.next (levelField.required_rereads (.intAtLeast 1))
    |>.next (notesField.orDefault_rereads [] LickNote.codec_rereads.tuple rfl)
    |>.next (explanationField.orDefault_rereads "" .text rfl)
  exact .record echo (by decide) fun _ => rfl

/-! ### Sessions -/

theorem Selection.codec_rereads : Selection.codec.Rereads := by
  have echo := Echo.first Selection.mk (genreField.orDefault_rereads none (.optional .text fun _ => nofun) rfl)
    |>.next (levelField.orDefault_rereads none (.optional (.intAtLeast 1) fun _ => nofun) rfl)
    |>.next (progressionIdField.orDefault_rereads none (.optional .text fun _ => nofun) rfl)
    |>.next (rootStringField.orDefault_rereads none (.optional (.intWithin 1 6) fun _ => nofun) rfl)
    |>.next (randomnessField.orDefault_rereads 50 (.intWithin 0 100) rfl)
    |>.next (partField.orDefault_rereads .bass .word rfl)
  exact .record echo (by decide) fun _ => rfl

theorem Session.codec_rereads : Session.codec.Rereads := by
  have echo := Echo.first Session.mk (selectionField.orDefault_rereads .blank Selection.codec_rereads
      (Selection.codec_rereads.decode_encode (.map []) .blank rfl))
    |>.next (seedField.orDefault_rereads none (.optional .int fun _ => nofun) rfl)
    |>.next (enabledRulesField.orDefault_rereads none (.optional (.listOf .text) fun _ => nofun) rfl)
    |>.next (progressionField.orDefault_rereads usualProgression .text rfl)
    |>.next (partsField.orDefault_rereads usualParts Part.codec_rereads.listOf rfl)
    |>.next (appliedRulesField.orDefault_rereads [] AppliedRule.codec_rereads.listOf rfl)
  exact .record echo (by decide) fun _ => rfl

/-! ### All types -/

/-- A type of records: its name in messages, and how its records are read and written. -/
structure RecordType where
  title : String
  Value : Type
  codec : Codec Value

namespace RecordType

/-- Slots are records of one of several types, told apart by their kinds, and a type of their own. -/
def slots : List RecordType :=
  ⟨Slot.title, Slot, Slot.codec⟩ ::
    Slot.kinds.map fun kind => ⟨Slot.kindTitle kind, Slot, Slot.ofKind kind⟩

def plain : List RecordType :=
  [⟨Chord.title, Chord, Chord.codec⟩, ⟨Progression.title, Progression, Progression.codec⟩,
    ⟨Chart.title, Chart, Chart.codec⟩, ⟨Bar.title, Bar, Bar.codec⟩,
    ⟨ChordBoundary.title, ChordBoundary, ChordBoundary.codec⟩, ⟨Timeline.title, Timeline, Timeline.codec⟩,
    ⟨Rule.title, Rule, Rule.codec⟩, ⟨PitchRef.title, PitchRef, PitchRef.codec⟩,
    ⟨RiffEvent.title, RiffEvent, RiffEvent.codec⟩, ⟨Riff.title, Riff, Riff.codec⟩,
    ⟨ParameterSpec.title, ParameterSpec, ParameterSpec.codec⟩,
    ⟨GenreProfile.title, GenreProfile, GenreProfile.codec⟩,
    ⟨TemplateEvent.title, TemplateEvent, TemplateEvent.codec⟩,
    ⟨WalkTemplate.title, WalkTemplate, WalkTemplate.codec⟩, ⟨RichRule.title, RichRule, RichRule.codec⟩,
    ⟨WalkParameters.title, WalkParameters, WalkParameters.codec⟩, ⟨Part.title, Part, Part.codec⟩,
    ⟨AppliedRule.title, AppliedRule, AppliedRule.codec⟩, ⟨NoteEvent.title, NoteEvent, NoteEvent.codec⟩,
    ⟨BassNote.title, BassNote, BassNote.codec⟩, ⟨Selection.title, Selection, Selection.codec⟩,
    ⟨Scale.title, Scale, Scale.codec⟩, ⟨LickNote.title, LickNote, LickNote.codec⟩,
    ⟨Lick.title, Lick, Lick.codec⟩, ⟨Session.title, Session, Session.codec⟩]

def all : List RecordType := plain ++ slots

theorem rereads_of_mem_slots {t : RecordType} (h : t ∈ slots) : t.codec.Rereads := by
  rcases List.mem_cons.mp h with rfl | h
  · exact Slot.codec_rereads
  · obtain ⟨kind, -, rfl⟩ := List.mem_map.mp h
    exact Slot.ofKind_rereads kind

theorem forall_rereads_plain : List.Forall (fun t : RecordType => t.codec.Rereads) plain :=
  ⟨Chord.codec_rereads, Progression.codec_rereads, Chart.codec_rereads, Bar.codec_rereads,
    ChordBoundary.codec_rereads, Timeline.codec_rereads, Rule.codec_rereads, PitchRef.codec_rereads,
    RiffEvent.codec_rereads, Riff.codec_rereads, ParameterSpec.codec_rereads, GenreProfile.codec_rereads,
    TemplateEvent.codec_rereads, WalkTemplate.codec_rereads, RichRule.codec_rereads,
    WalkParameters.codec_rereads, Part.codec_rereads, AppliedRule.codec_rereads, NoteEvent.codec_rereads,
    BassNote.codec_rereads, Selection.codec_rereads, Scale.codec_rereads, LickNote.codec_rereads,
    Lick.codec_rereads, Session.codec_rereads⟩

/-- A record that was read, from whatever data, is read again from its written form. -/
theorem reads_what_it_writes (t : RecordType) (h : t ∈ all) (d : Datum) (r : t.Value)
    (read : t.codec.decode d = .ok r) : t.codec.decode (t.codec.encode r) = .ok r := by
  have rereads : t.codec.Rereads := by
    rcases List.mem_append.mp h with record | slot
    · exact List.forall_iff_forall_mem.mp forall_rereads_plain t record
    · exact rereads_of_mem_slots slot
  exact rereads.decode_encode d r read

/-- A rule whose fields are given in other forms than they are written in. -/
def looseRule : Datum :=
  .object [("id", .text "turn"), ("part", .text "bass"), ("genre_tags", .list [.text "blues"]),
    ("min_level", .bool true), ("maxLevel", .real (.infinity false)), ("role", .text "anchor"),
    ("affects_slot", .text "targetTone"), ("trigger", .text "chord change"), ("weight", .text " 0.5")]

def strictRule : Rule :=
  ⟨"turn", .bass, ["blues"], 1, none, .anchor, .targetTone, .chordChange, "", some (.finite (1 / 2))⟩

theorem loose_rule_rereads : (⟨Rule.title, Rule, Rule.codec⟩ : RecordType) ∈ all ∧
    Rule.codec.decode looseRule = .ok strictRule ∧
    Rule.codec.decode (Rule.codec.encode strictRule) = .ok strictRule := by
  have member : (⟨Rule.title, Rule, Rule.codec⟩ : RecordType) ∈ all := by
    refine List.mem_append_left _ ?_
    simp [plain]
  have accepted : (Rule.codec.decode looseRule).orReject Rule.title = .ok strictRule :=
    Success.ok_of_toOption (by decide +kernel)
  have read : Rule.codec.decode looseRule = .ok strictRule := Checked.orReject_eq_ok.mp accepted
  exact ⟨member, read, reads_what_it_writes _ member looseRule strictRule read⟩

end RecordType

end Ostinato
