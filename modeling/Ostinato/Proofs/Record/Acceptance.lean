import Ostinato.Proofs.Record.Rereading
import Ostinato.Proofs.Timeline.Layout

/-!
# Accepted records

A record that is built from values can break the checks of its type as well as one that is read. It passes
them if each of its fields does. The timeline of a progression passes all checks of timelines.
-/

namespace Ostinato

namespace Codec

variable {α : Type} {c : Codec α}

theorem accepts_natAtLeast {least n : Nat} (h : least ≤ n) : (natAtLeast least).Accepts n :=
  congrArg (Checked.map Subtype.val) (accepts_natFrom ⟨n, h⟩)

theorem accepts_optionalText (s : Option String) : (Codec.optional text).Accepts s := by
  cases s <;> rfl

theorem accepts_tuple {as : List α} (h : ∀ a ∈ as, c.Accepts a) : (tuple c).Accepts as :=
  accepts_sequence h

theorem accepts_texts (as : List String) : (tuple text).Accepts as := accepts_tuple fun _ _ => rfl

end Codec

/-! ### Records -/

/-- A reader that admits what is built from values that pass the checks of their fields. -/
structure Admission {σ α : Type} (read : Datum → Checked α) (build : σ → α)
    (write : σ → List (String × Datum)) (places : List (List String × String)) (passes : σ → Prop) :
    Prop where
  names : ∀ x, (write x).map Prod.fst = places.map Prod.snd
  admits : ∀ x, passes x → ∀ d : Datum, d.Holds places (write x) → read d = .ok (build x)

namespace Admission

variable {σ α β : Type} {build : σ → α → β} {write : σ → List (String × Datum)} {passes : σ → Prop}
variable {places : List (List String × String)} {f : Field α} {readField : Datum → Checked α}

theorem first (make : α → β) (h : f.Finds readField) :
    Admission (fun d => make <$> readField d) make (fun a => [f.entry a]) [f.place] f.codec.Accepts where
  names _ := rfl
  admits a accepted d written := by
    rw [Checked.map_eq, h a accepted d written]
    rfl

theorem next {read : Datum → Checked (α → β)} (admission : Admission read build write places passes)
    (h : f.Finds readField) : Admission (fun d => read d <*> readField d) (fun x : σ × α => build x.1 x.2)
      (fun x => write x.1 ++ [f.entry x.2]) (places ++ [f.place])
      (fun x => passes x.1 ∧ f.codec.Accepts x.2) where
  names x := by
    rw [List.map_append, List.map_append, admission.names]
    rfl
  admits x accepted d written := by
    obtain ⟨before, last⟩ := written.append
    rw [Checked.seq_eq, admission.admits x.1 accepted.1 d before, h x.2 accepted.2 d last]
    rfl

end Admission

theorem Codec.accepts_record {σ α : Type} {title : String} {read : Datum → Checked α} {build : σ → α}
    {write : σ → List (String × Datum)} {fields : α → List (String × Datum)}
    {places : List (List String × String)} {passes : σ → Prop}
    (admission : Admission read build write places passes) (legible : Legible places)
    (written : ∀ x, write x = fields (build x)) {x : σ} (h : passes x) :
    (Codec.record title read fields).Accepts (build x) := by
  refine admission.admits x h (.object (fields (build x))) ?_
  rw [← written]
  exact Datum.holds_object legible (admission.names x)

/-! ### Progressions -/

theorem Chord.accepts {c : Chord} (named : c.degree ≠ "") : codec.Accepts c := by
  have admission := Admission.first Chord.mk degreeField.required_finds
    |>.next (qualityField.orDefault_finds none)
    |>.next (heldField.orDefault_finds Count.one)
  exact Codec.accepts_record admission (by decide) (fun _ => rfl) (x := ((c.degree, c.quality), c.held))
    ⟨⟨Codec.accepts_name named, Codec.accepts_optionalText c.quality⟩, Codec.accepts_natFrom c.held⟩

theorem Progression.accepts {p : Progression} (named : p.id ≠ "") (chords : ∀ c ∈ p.chords, c.degree ≠ "") :
    codec.Accepts p := by
  have admission := Admission.first Progression.mk idField.required_finds
    |>.next (keyField.orDefault_finds "C")
    |>.next (chordsField.orDefault_finds [])
    |>.next (genreTagsField.orDefault_finds [])
    |>.next (descriptionField.orDefault_finds "")
  have held : chordsField.codec.Accepts p.chords := Codec.accepts_tuple fun c hc => Chord.accepts (chords c hc)
  exact Codec.accepts_record admission (by decide) (fun _ => rfl)
    (x := ((((p.id, p.key), p.chords), p.genreTags), p.description))
    ⟨⟨⟨⟨Codec.accepts_name named, rfl⟩, held⟩, Codec.accepts_texts p.genreTags⟩, rfl⟩

/-! ### Timelines -/

theorem Bar.accepts {b : Bar} (h : 1 ≤ b.startBeat) : codec.Accepts b := by
  have admission := Admission.first Bar.mk indexField.required_finds
    |>.next chordIndexField.required_finds
    |>.next chordDegreeField.required_finds
    |>.next startBeatField.required_finds
    |>.next (beatsField.orDefault_finds beatsPerBar)
  exact Codec.accepts_record admission (by decide) (fun _ => rfl)
    (x := ((((b.index, b.chordIndex), b.chordDegree), b.startBeat), b.beats))
    ⟨⟨⟨⟨Codec.accepts_natAtLeast (Nat.zero_le _), Codec.accepts_natAtLeast (Nat.zero_le _)⟩, rfl⟩,
      Codec.accepts_natAtLeast h⟩, rfl⟩

theorem ChordBoundary.accepts {b : ChordBoundary} (start : 1 ≤ b.startBeat) (last : 1 ≤ b.endBeat) :
    codec.Accepts b := by
  have admission := Admission.first ChordBoundary.mk barIndexField.required_finds
    |>.next chordIndexField.required_finds
    |>.next chordDegreeField.required_finds
    |>.next startBeatField.required_finds
    |>.next endBeatField.required_finds
  exact Codec.accepts_record admission (by decide) (fun _ => rfl)
    (x := ((((b.barIndex, b.chordIndex), b.chordDegree), b.startBeat), b.endBeat))
    ⟨⟨⟨⟨Codec.accepts_natAtLeast (Nat.zero_le _), Codec.accepts_natAtLeast (Nat.zero_le _)⟩, rfl⟩,
      Codec.accepts_natAtLeast start⟩, Codec.accepts_natAtLeast last⟩

theorem Timeline.one_le_beats_of_boundary {p : Progression} {b : ChordBoundary}
    (h : b ∈ (ofProgression p).boundaries) : 1 ≤ b.startBeat ∧ 1 ≤ b.endBeat := by
  obtain ⟨j, hj⟩ := List.getElem?_of_mem h
  have start := startBeat_of_boundary hj
  have last := endBeat_of_boundary hj
  rw [boundary_ofProgression] at hj
  obtain ⟨c, hc, -⟩ := Option.map_eq_some_iff.mp hj
  have held := c.held.property
  rw [barsBefore_succ hc, beatsPerBar] at last
  omega

theorem Timeline.accepts_ofProgression (p : Progression) : codec.Accepts (ofProgression p) := by
  have admission := Admission.first Timeline.mk (keyField.orDefault_finds "C")
    |>.next (barsField.orDefault_finds [])
    |>.next (boundariesField.orDefault_finds [])
  have bars : barsField.codec.Accepts (ofProgression p).bars := by
    refine Codec.accepts_tuple fun b hb => ?_
    obtain ⟨i, hi⟩ := List.getElem?_of_mem hb
    exact Bar.accepts (by rw [(view_of_bar hi).2.1]; omega)
  have boundaries : boundariesField.codec.Accepts (ofProgression p).boundaries := by
    refine Codec.accepts_tuple fun b hb => ?_
    obtain ⟨start, last⟩ := one_le_beats_of_boundary hb
    exact ChordBoundary.accepts start last
  exact Codec.accepts_record admission (by decide) (fun _ => rfl)
    (x := (((ofProgression p).key, (ofProgression p).bars), (ofProgression p).boundaries))
    ⟨⟨rfl, bars⟩, boundaries⟩

end Ostinato
