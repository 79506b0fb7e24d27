import Ostinato.Proofs.Arrangement.EqualSlots
import Ostinato.Proofs.Arrangement.Independence
import Ostinato.Proofs.Harmony.ChordSpelling
import Ostinato.Proofs.Walk.Tones

/-!
# Notes of walks

A walk is worked out for the chords that it leads between, and its tones are sounded later, where other
chords or none may be. Since the tones are labels, each note has the pitch that was worked out for it.
-/

namespace Ostinato

open Success

/-! ### Beats and lengths -/

theorem WalkPlan.exists_beatOf (e : TemplateEvent) :
    ∃ n : Nat, 1 ≤ n ∧ WalkPlan.beatOf e = n ∧ (n : Int) = 4 * e.barOffset + e.beat.val := by
  have first := e.beat.property.1
  refine ⟨4 * e.barOffset + e.beat.val.toNat, by omega, ?_, by omega⟩
  rw [WalkPlan.beatOf, beatsPerBar]
  omega

theorem Codec.decode_realFrom_one {n : Nat} (low : 1 ≤ n) (high : n ≤ 2 ^ 53) :
    ∃ x, (Codec.realFrom 1).decode (.int n) = .ok x ∧ x.val = .finite n := by
  have least : (Binary64.finite n).atLeastInt 1 = true :=
    (Binary64.atLeastInt_iff rfl 1).mpr (by exact_mod_cast low)
  refine ⟨⟨.finite n, least⟩, ?_, rfl⟩
  simp only [realFrom, real, Binary64.ofInt?_of_le high, Checked.bind, least, dite_true]

theorem Codec.exists_decode_realAbove_zero {n : Int} {k : Nat} (hk : k < 1024) (low : 0 < n)
    (high : n.natAbs ≤ 2 ^ k) : ∃ x, (Codec.realAbove 0).decode (.int n) = .ok x := by
  obtain ⟨q, hq, -⟩ := Binary64.toRat?_ofRat_of_abs_le hk (Binary64.abs_intCast_le high)
  have least : (Binary64.ofRat n).atLeastInt 1 = true :=
    Binary64.atLeastInt_ofRat (by exact_mod_cast (show 1 ≤ n by omega))
  have one_le : (1 : ℚ) ≤ q := by exact_mod_cast (Binary64.atLeastInt_iff hq 1).mp least
  have above : (Binary64.ofRat n).aboveInt 0 = true := by
    simp only [Binary64.aboveInt, Binary64.place_of_toRat? hq]
    simp
    linarith
  have read : Binary64.ofInt? n = .ok (Binary64.ofRat n) := by
    unfold Binary64.ofInt? Binary64.ofInt
    cases hx : Binary64.ofRat n with
    | infinity s => rw [hx] at hq; cases hq
    | _ => rfl
  refine ⟨⟨Binary64.ofRat n, above⟩, ?_⟩
  simp only [realAbove, real, read, Checked.bind, above, dite_true]

/-! ### Walks that are worked out -/

theorem RichRule.exists_walkRiff {r : RichRule} (params : WalkParameters) {context : PitchContext}
    (sounding : ∀ i, ∃ q, degreePitch (anchorDegree context.timeline i) = .ok q)
    (length : r.walkLength ≤ 2 ^ 1000)
    (events : ∀ e ∈ r.templateEvents, WalkPlan.beatOf e ≤ 2 ^ 53 ∧
      (e.stepIndex.getD 1).natAbs ≤ 2 ^ 1000) :
    ∃ riff, r.walkRiff params context = .ok riff := by
  obtain ⟨w, hw⟩ := WalkPlan.exists_make r params sounding
  have written : ∀ e ∈ r.templateEvents, ∃ event, w.event e = .ok event := by
    intro e he
    obtain ⟨near, index⟩ := events e he
    obtain ⟨s, hs⟩ := WalkPlan.exists_degree hw sounding (e := e) le_rfl index
    obtain ⟨n, low, beat, -⟩ := WalkPlan.exists_beatOf e
    obtain ⟨x, hx, -⟩ := Codec.decode_realFrom_one low (by omega)
    rw [← beat] at hx
    exact ⟨_, WalkPlan.event_eq_ok.mpr ⟨s, x, hs, hx, rfl⟩⟩
  obtain ⟨events, hevents⟩ := exists_mapM written
  have positive : 0 < r.walkLength := by
    unfold walkLength
    cases r.template with
    | none => decide
    | some template => exact template.length.property
  obtain ⟨x, hx⟩ := Codec.exists_decode_realAbove_zero (k := 1000) (by norm_num) positive (by
    rw [← Int.natAbs_of_nonneg positive.le] at length
    exact_mod_cast length)
  exact ⟨_, walkRiff_eq_ok.mpr ⟨w, events, x, hw, hevents, hx, rfl⟩⟩

/-! ### Notes of a performance -/

/-- The values that a rule is bound with. -/
def AppliedRule.values (a : AppliedRule) : List (String × Datum) :=
  (a.parameters.getD []).map fun v => (v.1, v.2.datum)

/-- The note of a template event, from the tone that was worked out for it. No chord of the beat that it
falls on is asked for. -/
def WalkPlan.note (w : WalkPlan) (startBeat : Nat) (register : String) (part : Part) (e : TemplateEvent) :
    Except NumberFault NoteEvent := do
  let tone ← w.degree e
  let pitch ← degreePitch tone
  return ⟨.finite (startBeat + 4 * e.barOffset + e.beat.val - 1 : Int), .finite 1, pitch.degree,
    Register.octave register, part.id, part.name⟩

/-- The notes of a walk that is worked out in the context of a performance, one for each template event. -/
def Performance.walkNotes (params : WalkParameters) (part : Part) (q : Performance) :
    Except NumberFault (List NoteEvent) := do
  let w ← WalkPlan.make q.engagement.rule params q.context
  let register := Register.choose q.engagement.applied part (some q.engagement.rule)
  q.engagement.rule.templateEvents.mapM (w.note q.startBeat register part)

section Performances

variable {q : Performance} {params : WalkParameters} {w : WalkPlan} {e : TemplateEvent} {event : RiffEvent}

theorem Performance.riff_eq_resolveWalk (figure : q.engagement.figure = .walk) :
    q.riff = q.engagement.rule.resolveWalk q.engagement.applied.values q.context := by
  rw [riff, figure]
  rfl

theorem Performance.riff_of_walk (figure : q.engagement.figure = .walk)
    (hparams : q.engagement.rule.walkParameters q.engagement.applied.values = .ok params) :
    q.riff = q.engagement.rule.walkRiff params q.context := by
  rw [riff_eq_resolveWalk figure, RichRule.resolveWalk, hparams]
  rfl

theorem RiffEvent.place_of_near (event : RiffEvent) {start n : Nat} (low : 1 ≤ n)
    (beat : event.startBeat.val = .finite n) (near : start + n ≤ 2 ^ 53) :
    event.place (.whole start) = .ok ⟨.finite (start + n - 1 : Nat), event.duration.val, event.pitchRef,
      givenOr usualOctaveStrategy event.octaveStrategy⟩ := by
  refine RiffEvent.place_eq_ok.mpr ⟨.finite start, ?_, ?_⟩
  · exact Binary64.ofInt?_of_le (by omega)
  · rw [beat, Binary64.add_sub_one low near]

/-- Wherever a tone of a walk lands, its note is the one that was worked out. -/
theorem Performance.note_of_walk (t : Timeline) (part : Part) {s : String} {pitch : PitchClass}
    (label : isDegreeLabel s = true) (hpitch : degreePitch s = .ok pitch) (hs : w.degree e = .ok s)
    (hevent : w.event e = .ok event) (near : q.startBeat + WalkPlan.beatOf e ≤ 2 ^ 53) :
    ∃ placed n, event.place (.whole q.startBeat) = .ok placed ∧
      Candidate.note t part ⟨q, placed⟩ = .ok n ∧
      w.note q.startBeat (Register.choose q.engagement.applied part (some q.engagement.rule)) part e =
        .ok n := by
  obtain ⟨k, low, beat, counted⟩ := WalkPlan.exists_beatOf e
  obtain ⟨s', x, hs', hx, rfl⟩ := WalkPlan.event_eq_ok.mp hevent
  obtain rfl : s' = s := Except.ok.inj (hs'.symm.trans hs)
  rw [beat] at hx near
  have fits : q.startBeat + k ≤ 2 ^ 53 := by exact_mod_cast near
  obtain ⟨y, hy, value⟩ := Codec.decode_realFrom_one low (by omega)
  obtain rfl : y = x := Checked.ok.inj (hy.symm.trans hx)
  have placed := RiffEvent.place_of_near ⟨y, Duration.beat, ⟨WalkPlan.basisOf e, 0, some s'⟩, none⟩
    low value fits
  refine ⟨_, _, placed, Candidate.note_eq_ok.mpr ⟨pitch, ?_, rfl⟩, ?_⟩
  · rw [PitchRef.resolve_of_label (WalkPlan.basisOf_chord e) label, hpitch]
  · have same : ((q.startBeat : Int) + 4 * e.barOffset + e.beat.val - 1 : Int) =
        (q.startBeat + k - 1 : Nat) := by omega
    simp only [WalkPlan.note, bind_eq_ok, pure_eq_ok, same]
    exact ⟨s', hs, pitch, hpitch, rfl⟩

theorem Performance.notes_of_walk (t : Timeline) (part : Part) (figure : q.engagement.figure = .walk)
    (hparams : q.engagement.rule.walkParameters q.engagement.applied.values = .ok params)
    (anchors : ∀ i, isDegreeLabel (anchorDegree q.context.timeline i) = true ∧
      ∃ x, degreePitch (anchorDegree q.context.timeline i) = .ok x)
    (near : ∀ e ∈ q.engagement.rule.templateEvents, q.startBeat + WalkPlan.beatOf e ≤ 2 ^ 53)
    {riff : Riff} (hriff : q.engagement.rule.walkRiff params q.context = .ok riff) :
    ∃ notes, q.notes t part = .ok notes ∧ q.walkNotes params part = .ok notes := by
  obtain ⟨w, events, length, hw, hevents, -, rfl⟩ := RichRule.walkRiff_eq_ok.mp hriff
  have each : List.Forall₂ (fun e event => ∃ placed n, event.place (.whole q.startBeat) = .ok placed ∧
      Candidate.note t part ⟨q, placed⟩ = .ok n ∧
      w.note q.startBeat (Register.choose q.engagement.applied part (some q.engagement.rule)) part e =
        .ok n) q.engagement.rule.templateEvents events := by
    refine ((List.forall₂_and_left _ _).mpr ⟨near, mapM_eq_ok.mp hevents⟩).imp fun e event h => ?_
    obtain ⟨s, -, hs, -, -⟩ := WalkPlan.event_eq_ok.mp h.2
    -- an anchor is a label by assumption, and any other tone is one as the degree of a pitch
    rcases WalkPlan.degree_spec hw hs with ⟨i, rfl⟩ | ⟨p, rfl⟩
    · obtain ⟨label, x, hx⟩ := anchors i
      exact note_of_walk t part label hx hs h.2 h.1
    · exact note_of_walk t part (isDegreeLabel_degree p) (degreePitch_degree p) hs h.2 h.1
  -- the program places all events before it sounds the first of them
  obtain ⟨placed, notes, hplaced, hnotes, same⟩ := exists_mapM_of_steps each
  refine ⟨notes, ?_, ?_⟩
  · rw [Performance.notes, Performance.events, riff_of_walk figure hparams, hriff]
    simp only [bind_eq_ok, Failure.ofNumber_eq_ok]
    exact ⟨placed, ⟨_, rfl, hplaced⟩, hnotes⟩
  · simp only [walkNotes, bind_eq_ok]
    exact ⟨w, hw, same⟩

end Performances

/-! ### Walks on a timeline of labels -/

theorem Timeline.exists_chord_of_mem_boundaries {p : Progression} {b : ChordBoundary}
    (hb : b ∈ (ofProgression p).boundaries) : ∃ chord ∈ p.chords, b.chordDegree = chord.root := by
  obtain ⟨j, hj⟩ := List.getElem?_of_mem hb
  rw [boundary_ofProgression] at hj
  obtain ⟨chord, hchord, rfl⟩ := Option.map_eq_some_iff.mp hj
  exact ⟨chord, List.mem_of_getElem? hchord, rfl⟩

theorem Engagement.length_performances (p : Progression) (e : Engagement) :
    (e.performances (.ofProgression p)).length = if e.applied.slot = .global then p.totalBars else 1 := by
  unfold performances
  split
  · rw [List.length_map, Timeline.length_bars]
  · rfl

theorem exists_degreePitch_anchorDegree (p : Progression) (i : Int) :
    ∃ x, degreePitch (anchorDegree (.ofProgression p) i) = .ok x := by
  refine forall_anchorDegree (P := fun s => ∃ x, degreePitch s = .ok x) ⟨0, rfl⟩ (fun b hb => ?_) i
  obtain ⟨chord, -, root⟩ := Timeline.exists_chord_of_mem_boundaries hb
  rw [root]
  exact exists_degreePitch_chordDegree chord.degree

theorem isDegreeLabel_anchorDegree {p : Progression}
    (labels : ∀ chord ∈ p.chords, isDegreeLabel chord.root = true) (i : Int) :
    isDegreeLabel (anchorDegree (.ofProgression p) i) = true := by
  refine forall_anchorDegree (P := fun s => isDegreeLabel s = true) (by decide) (fun b hb => ?_) i
  obtain ⟨chord, hchord, root⟩ := Timeline.exists_chord_of_mem_boundaries hb
  rw [root]
  exact labels chord hchord

theorem RichRule.resolve_of_walkRiff {r : RichRule} {params : WalkParameters} {context : PitchContext}
    (anchors : ∀ i, isDegreeLabel (anchorDegree context.timeline i) = true) {riff : Riff}
    (h : r.walkRiff params context = .ok riff) {event : RiffEvent} (hevent : event ∈ riff.events) :
    ∃ tone, event.pitchRef.degreeHint = some tone ∧
      ∀ anywhere, event.pitchRef.resolve anywhere = degreePitch tone := by
  obtain ⟨w, events, length, hw, hevents, -, rfl⟩ := walkRiff_eq_ok.mp h
  obtain ⟨e, -, made⟩ := exists_of_mem_mapM hevents hevent
  obtain ⟨tone, x, htone, -, rfl⟩ := WalkPlan.event_eq_ok.mp made
  have label : isDegreeLabel tone = true := by
    rcases WalkPlan.degree_spec hw htone with ⟨i, rfl⟩ | ⟨p, rfl⟩
    · exact anchors i
    · exact isDegreeLabel_degree p
  exact ⟨tone, rfl, PitchRef.resolve_of_label (WalkPlan.basisOf_chord e) label⟩

section Main

variable {p : Progression} {c : Catalog} {a : AppliedRule} {r : RichRule}
variable {params : WalkParameters} {span : SlotSpan}

theorem Voice.map_fst_make_of_walk {part : Part} (applies : a.appliesTo part.id = true)
    (hrule : c.richRule? a.ruleId = some r) (walk : r.isWalk = true)
    (hspan : a.slot.span? (.ofProgression p) (.whole r.walkLength) = .ok (some span)) :
    (Voice.make c (.ofProgression p) [a] part).map Prod.fst =
      (((⟨a, r, .walk, span⟩ : Engagement).performances (.ofProgression p)).mapM
        (Performance.notes (.ofProgression p) part)).map fun notes =>
          ⟨part, notes.flatten.mergeSort NoteEvent.notAfter⟩ := by
  have figure : Engagement.figureOf? c r = some (.walk, .whole r.walkLength) := if_pos walk
  have made : Engagement.make c (.ofProgression p) (a.on a.slot) = .ok (.ok ⟨a, r, .walk, span⟩) :=
    Engagement.make_of_span hrule figure hspan
  exact map_fst_make_single (b := a) applies made

theorem WalkPlan.add_beatOf_le {start : Nat} {e : TemplateEvent}
    (near : (start + 4 * e.barOffset + e.beat.val : Int) ≤ 2 ^ 53) : start + WalkPlan.beatOf e ≤ 2 ^ 53 := by
  obtain ⟨n, -, beat, counted⟩ := WalkPlan.exists_beatOf e
  rw [beat, counted, ← add_assoc]
  exact near

theorem Performance.notes_of_engagement (labels : ∀ chord ∈ p.chords, isDegreeLabel chord.root = true)
    (hparams : r.walkParameters a.values = .ok params) {q : Performance}
    (hq : q ∈ (⟨a, r, .walk, span⟩ : Engagement).performances (.ofProgression p))
    (near : ∀ e ∈ r.templateEvents, (q.startBeat + 4 * e.barOffset + e.beat.val : Int) ≤ 2 ^ 53)
    (part : Part) {riff : Riff} (hriff : r.walkRiff params q.context = .ok riff) :
    ∃ notes, q.notes (.ofProgression p) part = .ok notes ∧ q.walkNotes params part = .ok notes := by
  have engaged := Candidate.engagement_of_mem_performances hq
  have anchors : ∀ i, isDegreeLabel (anchorDegree q.context.timeline i) = true ∧
      ∃ x, degreePitch (anchorDegree q.context.timeline i) = .ok x := by
    intro i
    rw [Candidate.timeline_of_mem_performances hq]
    exact ⟨isDegreeLabel_anchorDegree labels i, exists_degreePitch_anchorDegree p i⟩
  have beats : ∀ e ∈ q.engagement.rule.templateEvents, q.startBeat + WalkPlan.beatOf e ≤ 2 ^ 53 := by
    intro e he
    rw [engaged] at he
    exact WalkPlan.add_beatOf_le (near e he)
  have worked_out : q.engagement.rule.walkRiff params q.context = .ok riff := by
    rw [engaged]
    exact hriff
  exact notes_of_walk _ part (by rw [engaged]) (by rwa [engaged]) anchors beats worked_out

theorem Performance.exists_walkRiff_of_notes (hparams : r.walkParameters a.values = .ok params)
    {t : Timeline} {q : Performance} (hq : q ∈ (⟨a, r, .walk, span⟩ : Engagement).performances t)
    {part : Part} {notes : List NoteEvent} (hnotes : q.notes t part = .ok notes) :
    ∃ riff, r.walkRiff params q.context = .ok riff := by
  have engaged := Candidate.engagement_of_mem_performances hq
  have accepted : q.engagement.rule.walkParameters q.engagement.applied.values = .ok params := by
    rwa [engaged]
  obtain ⟨placed, hplaced, -⟩ := bind_eq_ok.mp hnotes
  obtain ⟨riff, hriff, -⟩ := bind_eq_ok.mp hplaced
  rw [riff_of_walk (by rw [engaged]) accepted, engaged] at hriff
  exact ⟨riff, hriff⟩

theorem Voice.exists_make_of_walk (labels : ∀ chord ∈ p.chords, isDegreeLabel chord.root = true)
    (hrule : c.richRule? a.ruleId = some r) (walk : r.isWalk = true)
    (hparams : r.walkParameters a.values = .ok params)
    (hspan : a.slot.span? (.ofProgression p) (.whole r.walkLength) = .ok (some span))
    (near : ∀ q ∈ (⟨a, r, .walk, span⟩ : Engagement).performances (.ofProgression p),
      ∀ e ∈ r.templateEvents, (q.startBeat + 4 * e.barOffset + e.beat.val : Int) ≤ 2 ^ 53)
    (resolved : ∀ q ∈ (⟨a, r, .walk, span⟩ : Engagement).performances (.ofProgression p),
      ∃ riff, r.walkRiff params q.context = .ok riff) (part : Part) :
    ∃ v, (Voice.make c (.ofProgression p) [a] part).map Prod.fst = .ok v := by
  by_cases applies : a.appliesTo part.id = true
  · have played : ∀ q ∈ (⟨a, r, .walk, span⟩ : Engagement).performances (.ofProgression p),
        ∃ notes, q.notes (.ofProgression p) part = .ok notes := by
      intro q hq
      obtain ⟨riff, hriff⟩ := resolved q hq
      obtain ⟨notes, hnotes, -⟩ := Performance.notes_of_engagement labels hparams hq (near q hq) part hriff
      exact ⟨notes, hnotes⟩
    obtain ⟨notes, hnotes⟩ := exists_mapM played
    rw [map_fst_make_of_walk applies hrule walk hspan, hnotes]
    exact ⟨_, rfl⟩
  · refine ⟨_, map_fst_make_of_silent fun b hb applies' => ?_⟩
    obtain rfl := List.mem_singleton.mp hb
    exact absurd applies' applies

theorem Voice.walkNotes_of_make (labels : ∀ chord ∈ p.chords, isDegreeLabel chord.root = true)
    (hrule : c.richRule? a.ruleId = some r) (walk : r.isWalk = true)
    (hparams : r.walkParameters a.values = .ok params)
    (hspan : a.slot.span? (.ofProgression p) (.whole r.walkLength) = .ok (some span))
    (near : ∀ q ∈ (⟨a, r, .walk, span⟩ : Engagement).performances (.ofProgression p),
      ∀ e ∈ r.templateEvents, (q.startBeat + 4 * e.barOffset + e.beat.val : Int) ≤ 2 ^ 53)
    {v : Voice} (applies : a.appliesTo v.part.id = true)
    (h : (Voice.make c (.ofProgression p) [a] v.part).map Prod.fst = .ok v) :
    ∃ notes, ((⟨a, r, .walk, span⟩ : Engagement).performances (.ofProgression p)).mapM
        (Performance.walkNotes params v.part) = .ok notes ∧
      StablySorted NoteEvent.notAfter notes.flatten v.notes := by
  rw [map_fst_make_of_walk applies hrule walk hspan] at h
  obtain ⟨notes, hnotes, eq⟩ := map_eq_ok.mp h
  refine ⟨notes, mapM_eq_ok.mpr ?_, ?_⟩
  · refine ((List.forall₂_and_left _ _).mpr ⟨fun q hq => hq, mapM_eq_ok.mp hnotes⟩).imp ?_
    rintro q ns ⟨hq, hns⟩
    obtain ⟨riff, hriff⟩ := Performance.exists_walkRiff_of_notes hparams hq hns
    obtain ⟨ns', hns', tones⟩ :=
      Performance.notes_of_engagement labels hparams hq (near q hq) v.part hriff
    obtain rfl := Except.ok.inj (hns.symm.trans hns')
    exact tones
  · rw [← eq]
    exact NoteEvent.stablySorted_mergeSort notes.flatten

/-- A walk sounds exactly the tones that it is worked out with, one note for each template event, on its
beat and for one beat, in whatever chord it falls. -/
theorem Arrangement.walk_sounds_its_tones (parts : List Part)
    (labels : ∀ chord ∈ p.chords, isDegreeLabel chord.root = true)
    (hrule : c.richRule? a.ruleId = some r) (walk : r.isWalk = true)
    (hparams : r.walkParameters a.values = .ok params)
    (hspan : a.slot.span? (.ofProgression p) (.whole r.walkLength) = .ok (some span))
    (near : ∀ q ∈ (⟨a, r, .walk, span⟩ : Engagement).performances (.ofProgression p),
      ∀ e ∈ r.templateEvents, (q.startBeat + 4 * e.barOffset + e.beat.val : Int) ≤ 2 ^ 53) :
    let performances := (⟨a, r, .walk, span⟩ : Engagement).performances (.ofProgression p)
    performances.length = (if a.slot = .global then p.totalBars else 1) ∧
    (r.walkLength ≤ 2 ^ 1000 → (∀ e ∈ r.templateEvents, (e.stepIndex.getD 1).natAbs ≤ 2 ^ 1000) →
      ∀ q ∈ performances, ∃ riff, r.walkRiff params q.context = .ok riff) ∧
    (∀ q ∈ performances, ∀ riff, r.walkRiff params q.context = .ok riff → ∀ event ∈ riff.events,
      ∃ tone, event.pitchRef.degreeHint = some tone ∧
        ∀ context, event.pitchRef.resolve context = degreePitch tone) ∧
    ((∀ q ∈ performances, ∃ riff, r.walkRiff params q.context = .ok riff) →
      ∃ b, make p parts [a] c = .ok b) ∧
    ∀ b, make p parts [a] c = .ok b → ∀ v ∈ b.voices, a.appliesTo v.part.id = true →
      ∃ notes, performances.mapM (Performance.walkNotes params v.part) = .ok notes ∧
        StablySorted NoteEvent.notAfter notes.flatten v.notes := by
  intro performances
  refine ⟨Engagement.length_performances p ⟨a, r, .walk, span⟩, fun length indices q hq => ?_,
    fun q hq riff hriff event hevent => ?_, fun resolved => ?_, fun b hb v hv applies => ?_⟩
  · have sounding : ∀ i, ∃ x, degreePitch (anchorDegree q.context.timeline i) = .ok x := by
      rw [Candidate.timeline_of_mem_performances hq]
      exact exists_degreePitch_anchorDegree p
    refine r.exists_walkRiff params sounding length fun e he => ⟨?_, indices e he⟩
    have beat := WalkPlan.add_beatOf_le (near q hq e he)
    omega
  · refine RichRule.resolve_of_walkRiff ?_ hriff hevent
    rw [Candidate.timeline_of_mem_performances hq]
    exact isDegreeLabel_anchorDegree labels
  · have voices := Voice.exists_make_of_walk labels hrule walk hparams hspan near resolved
    obtain ⟨vs, hvs⟩ := exists_mapM fun part (_ : part ∈ parts.filter fun part => !part.muted) => voices part
    obtain ⟨b, hb, -⟩ := map_eq_ok.mp ((map_voices_make p parts [a] c).trans hvs)
    exact ⟨b, hb⟩
  · obtain ⟨-, omissions, made⟩ := made_of_mem hb hv
    have alone : (BindingSet.ofList [a]).toList = [a] := rfl
    refine Voice.walkNotes_of_make labels hrule walk hparams hspan near applies ?_
    rw [← alone, made]
    rfl

theorem Arrangement.map_voices_of_walk (part : Part) (heard : part.muted = false)
    (applies : a.appliesTo part.id = true) (hrule : c.richRule? a.ruleId = some r) (walk : r.isWalk = true)
    (hspan : a.slot.span? (.ofProgression p) (.whole r.walkLength) = .ok (some span))
    {notes : List (List NoteEvent)}
    (hnotes : ((⟨a, r, .walk, span⟩ : Engagement).performances (.ofProgression p)).mapM
      (Performance.notes (.ofProgression p) part) = .ok notes)
    (sorted : notes.flatten.Pairwise fun m n => m.notAfter n = true) :
    (make p [part] [a] c).map (·.voices) = .ok [⟨part, notes.flatten⟩] := by
  have one : [part].filter (fun part => !part.muted) = [part] := by simp [heard]
  rw [map_voices_make, one]
  refine mapM_eq_ok.mpr (.cons ?_ .nil)
  refine (Voice.map_fst_make_of_walk applies hrule walk hspan).trans ?_
  rw [hnotes, Except.map, List.mergeSort_of_pairwise sorted]

end Main

/-! ### A walk over the end of the timeline -/

theorem first_in_bar : (1 : Int) ≤ 1 ∧ (1 : Int) ≤ 4 := by decide

theorem second_in_bar : (1 : Int) ≤ 2 ∧ (2 : Int) ≤ 4 := by decide

theorem third_in_bar : (1 : Int) ≤ 3 ∧ (3 : Int) ≤ 4 := by decide

theorem fourth_in_bar : (1 : Int) ≤ 4 ∧ (4 : Int) ≤ 4 := by decide

def strideEvents : List TemplateEvent :=
  [⟨⟨1, first_in_bar⟩, 0, .startAnchor, none, none⟩,
    ⟨⟨2, second_in_bar⟩, 0, .walkStep, some 1, none⟩,
    ⟨⟨3, third_in_bar⟩, 0, .walkStep, some 7, none⟩,
    ⟨⟨4, fourth_in_bar⟩, 0, .approachTone, none, none⟩,
    ⟨⟨1, first_in_bar⟩, 1, .targetAnchor, none, some "targetChordRoot"⟩,
    ⟨⟨1, first_in_bar⟩, 2, .targetAnchor, none, none⟩]

def walkRule (id : String) (length : { n : Int // 0 < n }) (events : List TemplateEvent) : RichRule :=
  ⟨id, "", "", none, .walk, [], none, [], [], some ⟨length, events⟩, []⟩

def strideRule : RichRule := walkRule "stride" ⟨12, by decide⟩ strideEvents

def stride : AppliedRule := ⟨"stride", .bar 1, none, some "low", none⟩

theorem two_steps : (1 : Int) ≤ 2 ∧ (2 : Int) ≤ 5 := by decide

def usualWalk : WalkParameters := ⟨.nextChordRoot, ⟨2, two_steps⟩, .auto, .chromatic, "low", "custom"⟩

def onlyRule (r : RichRule) : Catalog := { Catalog.empty with richRules := [r] }

def strideOver : Engagement := ⟨stride, strideRule, .walk, ⟨4, 5, 8, 1, 2⟩⟩

def strideVoice : Voice :=
  ⟨bassPart, [heldRoot "IV" 5, heldRoot "IV+1" 6, heldRoot "VI+1" 7, heldRoot "IV+1" 8, heldRoot "V" 9,
    heldRoot "V" 13]⟩

theorem Arrangement.stride_sounds_its_tones :
    (∀ chord ∈ threeBars.chords, isDegreeLabel chord.root = true) ∧
    strideRule.walkParameters stride.values = .ok usualWalk ∧
    (∀ q ∈ strideOver.performances (.ofProgression threeBars), ∀ e ∈ strideRule.templateEvents,
      (q.startBeat + 4 * e.barOffset + e.beat.val : Int) ≤ 2 ^ 53) ∧
    ∃ b notes, make threeBars [bassPart] [stride] (onlyRule strideRule) = .ok b ∧
      b.voices = [strideVoice] ∧
      (strideOver.performances (.ofProgression threeBars)).mapM (Performance.walkNotes usualWalk bassPart) =
        .ok notes ∧
      StablySorted NoteEvent.notAfter notes.flatten strideVoice.notes := by
  have labels : ∀ chord ∈ threeBars.chords, isDegreeLabel chord.root = true := by decide +kernel
  have found : (onlyRule strideRule).richRule? stride.ruleId = some strideRule := rfl
  have params : strideRule.walkParameters stride.values = .ok usualWalk :=
    ok_of_toOption (by decide +kernel)
  have span : stride.slot.span? (.ofProgression threeBars) (.whole strideRule.walkLength) =
    .ok (some strideOver.span) := rfl
  have near : ∀ q ∈ strideOver.performances (.ofProgression threeBars), ∀ e ∈ strideRule.templateEvents,
      (q.startBeat + 4 * e.barOffset + e.beat.val : Int) ≤ 2 ^ 53 := by decide +kernel
  have played : (strideOver.performances (.ofProgression threeBars)).mapM
      (Performance.notes (.ofProgression threeBars) bassPart) = .ok [strideVoice.notes] :=
    ok_of_toOption (by decide +kernel)
  obtain ⟨b, hb, voices⟩ := map_eq_ok.mp
    (map_voices_of_walk bassPart rfl rfl found rfl span played (by decide +kernel))
  have member : strideVoice ∈ b.voices := by
    rw [voices]
    exact List.mem_singleton.mpr rfl
  obtain ⟨-, -, -, -, tones⟩ := walk_sounds_its_tones [bassPart] labels found rfl params span near
  obtain ⟨notes, hnotes, sorted⟩ := tones b hb strideVoice member rfl
  exact ⟨labels, params, near, b, notes, hb, voices, hnotes, sorted⟩

/-! ### The last exact beat -/

theorem four_beats_pos : (0 : Int) < 4 := by decide

def farRule : RichRule :=
  walkRule "far" ⟨4, four_beats_pos⟩ [⟨⟨4, fourth_in_bar⟩, 2 ^ 51 - 1, .startAnchor, none, none⟩]

def far : AppliedRule := ⟨"far", .bar 0, none, some "low", none⟩

def farOff : Engagement := ⟨far, farRule, .walk, ⟨4, 1, 4, 0, 1⟩⟩

/-- A note on beat `2 ^ 53` itself comes a beat early: the beat after it, from which one is taken away,
is no number of the format. -/
theorem Arrangement.far_walk_is_early :
    (∀ chord ∈ threeBars.chords, isDegreeLabel chord.root = true) ∧
    farRule.walkParameters far.values = .ok usualWalk ∧
    far.slot.span? (.ofProgression threeBars) (.whole farRule.walkLength) = .ok (some farOff.span) ∧
    (∀ q ∈ farOff.performances (.ofProgression threeBars), ∀ e ∈ farRule.templateEvents,
      (q.startBeat + 4 * e.barOffset + e.beat.val - 1 : Int) ≤ 2 ^ 53) ∧
    (farOff.performances (.ofProgression threeBars)).mapM (Performance.walkNotes usualWalk bassPart) =
      .ok [[lowRoot (2 ^ 53)]] ∧
    (make threeBars [bassPart] [far] (onlyRule farRule)).map (·.voices) =
      .ok [⟨bassPart, [lowRoot (2 ^ 53 - 1)]⟩] ∧
    ¬ StablySorted NoteEvent.notAfter [lowRoot (2 ^ 53)] [lowRoot (2 ^ 53 - 1)] := by
  have found : (onlyRule farRule).richRule? far.ruleId = some farRule := rfl
  have span : far.slot.span? (.ofProgression threeBars) (.whole farRule.walkLength) =
    .ok (some farOff.span) := rfl
  have played : (farOff.performances (.ofProgression threeBars)).mapM
      (Performance.notes (.ofProgression threeBars) bassPart) = .ok [[lowRoot (2 ^ 53 - 1)]] :=
    ok_of_toOption (by decide +kernel)
  refine ⟨by decide +kernel, ok_of_toOption (by decide +kernel), span, by decide +kernel,
    ok_of_toOption (by decide +kernel), ?_, fun sorted => ?_⟩
  · exact map_voices_of_walk bassPart rfl rfl found rfl span played (by decide +kernel)
  · have same := List.singleton_perm_singleton.mp sorted.perm
    revert same
    decide +kernel

end Ostinato
