import Ostinato.Proofs.Arrangement.Correspondence
import Ostinato.Proofs.Arrangement.Rootless
import Ostinato.Proofs.BindingSet.History
import Ostinato.Proofs.Catalog.References
import Ostinato.Proofs.Walk.Parameters

/-!
# Bindings with and without values

The values that a walk is bound with change its tones and nothing else: its events stay on their beats.
So rules that can be played without values can be played with any values, as long as no value is accepted
that is no walk parameter.
-/

namespace Ostinato

open Success

/-! ### Walks -/

/-- Events of the same beats and lengths, the second one with a tone that has a pitch wherever it lands. -/
structure RiffEvent.Retuned (p : Progression) (e e' : RiffEvent) : Prop where
  startBeat : e'.startBeat = e.startBeat
  duration : e'.duration = e.duration
  octaveStrategy : e'.octaveStrategy = e.octaveStrategy
  sounds : ∀ anywhere : PitchContext, anywhere.timeline = .ofProgression p →
    ∃ x, e'.pitchRef.resolve anywhere = .ok x

section Walks

variable {r : RichRule} {p : Progression} {context : PitchContext}

theorem RiffEvent.Retuned.place {e e' : RiffEvent} (h : e.Retuned p e') {start : Amount}
    {placed : PlacedEvent} (hplaced : e.place start = .ok placed) :
    e'.place start = .ok { placed with pitchRef := e'.pitchRef } := by
  obtain ⟨first, hfirst, rfl⟩ := RiffEvent.place_eq_ok.mp hplaced
  refine RiffEvent.place_eq_ok.mpr ⟨first, hfirst, ?_⟩
  rw [h.startBeat, h.duration, h.octaveStrategy]

theorem exists_degreePitch_of_timeline (timeline : context.timeline = .ofProgression p) (i : Int) :
    ∃ x, degreePitch (anchorDegree context.timeline i) = .ok x := by
  rw [timeline]
  exact exists_degreePitch_anchorDegree p i

theorem WalkPlan.exists_resolve {params : WalkParameters} {w : WalkPlan}
    (timeline : context.timeline = .ofProgression p) (hw : make r params context = .ok w)
    {e : TemplateEvent} {tone : String} (htone : w.degree e = .ok tone) {anywhere : PitchContext}
    (same : anywhere.timeline = .ofProgression p) :
    ∃ x, PitchRef.resolve ⟨basisOf e, 0, some tone⟩ anywhere = .ok x := by
  have sounds : ∃ x, degreePitch tone = .ok x := by
    rcases degree_spec hw htone with ⟨i, rfl⟩ | ⟨q, rfl⟩
    · exact exists_degreePitch_of_timeline timeline i
    · exact ⟨q, degreePitch_degree q⟩
  cases label : isDegreeLabel tone with
  | true =>
    rw [PitchRef.resolve_of_label (basisOf_chord e) label]
    exact sounds
  | false => exact PitchRef.exists_resolve_of_not_label (basisOf_chord e) label same

/-- A walk that can be worked out can be worked out with other parameters. -/
theorem RichRule.walkRiff_with {params : WalkParameters} (timeline : context.timeline = .ofProgression p)
    (near : ∀ e ∈ r.templateEvents, (e.stepIndex.getD 1).natAbs ≤ 2 ^ 1000) {riff : Riff}
    (h : r.walkRiff params context = .ok riff) (params' : WalkParameters) :
    ∃ riff', r.walkRiff params' context = .ok riff' ∧
      List.Forall₂ (RiffEvent.Retuned p) riff.events riff'.events := by
  obtain ⟨w, events, length, hw, hevents, hlength, rfl⟩ := walkRiff_eq_ok.mp h
  have sounding := exists_degreePitch_of_timeline timeline
  obtain ⟨w', hw'⟩ := WalkPlan.exists_make r params' sounding
  obtain ⟨events', hevents', alike⟩ := mapM_rel_of_mem (S := RiffEvent.Retuned p) (g := w'.event)
    (fun e he event hevent => by
      obtain ⟨tone, start, -, hstart, rfl⟩ := WalkPlan.event_eq_ok.mp hevent
      obtain ⟨tone', htone'⟩ := WalkPlan.exists_degree hw' sounding le_rfl (near e he)
      exact ⟨_, WalkPlan.event_eq_ok.mpr ⟨tone', start, htone', hstart, rfl⟩, rfl, rfl, rfl,
        fun anywhere same => WalkPlan.exists_resolve timeline hw' htone' same⟩)
    hevents
  exact ⟨_, walkRiff_eq_ok.mpr ⟨w', events', length, hw', hevents', hlength, rfl⟩, alike⟩

end Walks

/-! ### Values of a binding -/

/-- A walk rule that can be worked out with all values it accepts. The steps of its template are not so
far from the walk that their tones are beyond the numbers of the format. -/
structure RichRule.Tolerant (r : RichRule) : Prop where
  fits : r.SchemaFits
  near : ∀ e ∈ r.templateEvents, (e.stepIndex.getD 1).natAbs ≤ 2 ^ 1000

/-- The binding without values. -/
def AppliedRule.bare (a : AppliedRule) : AppliedRule := { a with parameters := none }

def Engagement.bare (e : Engagement) : Engagement := { e with applied := e.applied.bare }

def Performance.bare (q : Performance) : Performance := { q with engagement := q.engagement.bare }

theorem Engagement.make_bare (c : Catalog) (t : Timeline) (a : AppliedRule) :
    make c t a.bare = (make c t a).map (Except.map Engagement.bare) := by
  have rule_id : a.bare.ruleId = a.ruleId := rfl
  have slot : a.bare.slot = a.slot := rfl
  simp only [make, rule_id, slot]
  cases c.richRule? a.ruleId with
  | none => rfl
  | some rule =>
    dsimp only
    cases figureOf? c rule with
    | none => rfl
    | some f =>
      dsimp only
      cases a.slot.span? t f.2 with
      | error fault => rfl
      | ok span => cases span <;> rfl

theorem Engagement.performances_bare (t : Timeline) (e : Engagement) :
    e.bare.performances t = (e.performances t).map Performance.bare := by
  have slot : e.bare.applied.slot = e.applied.slot := rfl
  unfold performances
  rw [slot]
  split
  · rw [List.map_map]
    rfl
  · rfl

/-! ### Candidates -/

/-- A candidate of a rule that is bound without values, and the one in its place with them. -/
structure Candidate.Revalued (p : Progression) (d d' : Candidate) : Prop where
  performance : d.performance = d'.performance.bare
  startBeat : d'.event.startBeat = d.event.startBeat
  duration : d'.event.duration = d.event.duration
  sounds : ∀ context : PitchContext, context.timeline = .ofProgression p →
    ∀ x, d.event.pitchRef.resolve context = .ok x → ∃ y, d'.event.pitchRef.resolve context = .ok y

/-- Notes that may have different tones. -/
def NoteEvent.SameBut (m n : NoteEvent) : Prop := n = { m with degree := n.degree }

theorem Candidate.Revalued.note {p : Progression} {d d' : Candidate} (h : d.Revalued p d') {part : Part}
    {n : NoteEvent} (hn : d.note (.ofProgression p) part = .ok n) :
    ∃ n', d'.note (.ofProgression p) part = .ok n' ∧ n.SameBut n' := by
  obtain ⟨x, hx, rfl⟩ := Candidate.note_eq_ok.mp hn
  have beat : d.beat = d'.beat := h.startBeat.symm
  have fallback : d.performance.fallbackChord = d'.performance.fallbackChord := by
    rw [h.performance]
    rfl
  rw [beat, fallback] at hx
  obtain ⟨y, hy⟩ := h.sounds _ rfl x hx
  refine ⟨_, Candidate.note_eq_ok.mpr ⟨y, hy, rfl⟩, ?_⟩
  rw [NoteEvent.SameBut, h.performance, beat, h.duration]
  rfl

/-- The events of a walk without values, and the same ones with them. -/
theorem Performance.events_of_bare {p : Progression} {q : Performance} (figure : q.engagement.figure = .walk)
    (timeline : q.context.timeline = .ofProgression p) (tolerant : q.engagement.rule.Tolerant)
    {placed : List PlacedEvent} (h : q.bare.events = .ok placed) :
    ∃ placed', q.events = .ok placed' ∧ List.Forall₂ (fun e e' => Candidate.Revalued p ⟨q.bare, e⟩ ⟨q, e'⟩)
      placed placed' := by
  have figure' : q.bare.engagement.figure = .walk := figure
  rw [events_of_walk figure'] at h
  obtain ⟨usual, husual, h⟩ := bind_eq_ok.mp h
  obtain ⟨events, hevents, h⟩ := bind_eq_ok.mp h
  obtain ⟨riff, hriff, rfl⟩ := map_eq_ok.mp hevents
  have defaults : q.engagement.rule.defaultWalkParameters = .ok usual := Failure.ofRecord_eq_ok.mp husual
  obtain ⟨params, hparams⟩ := (RichRule.forall_walkParameters_iff ⟨usual, defaults⟩).mpr tolerant.fits
    (q.engagement.applied.parameters.getD [])
  obtain ⟨riff', hriff', alike⟩ := RichRule.walkRiff_with timeline tolerant.near hriff params
  obtain ⟨placed', hplaced', related⟩ := mapM_rel₂ (R := RiffEvent.Retuned p)
    (S := fun e e' => Candidate.Revalued p ⟨q.bare, e⟩ ⟨q, e'⟩)
    (fun e e' x retuned hx => ⟨_, retuned.place hx, rfl, rfl, rfl, fun context same _ _ =>
      retuned.sounds context same⟩) alike (Failure.ofNumber_eq_ok.mp h)
  refine ⟨placed', ?_, related⟩
  rw [events_of_walk figure]
  exact bind_eq_ok.mpr ⟨params, Failure.ofRecord_eq_ok.mpr hparams, bind_eq_ok.mpr ⟨riff'.events,
    map_eq_ok.mpr ⟨riff', hriff', rfl⟩, Failure.ofNumber_eq_ok.mpr hplaced'⟩⟩

theorem Candidate.ofPerformance_of_bare {p : Progression} {q : Performance}
    (timeline : q.context.timeline = .ofProgression p)
    (tolerant : q.engagement.figure = .walk → q.engagement.rule.Tolerant) {ds : List Candidate}
    (h : ofPerformance q.bare = .ok ds) :
    ∃ ds', ofPerformance q = .ok ds' ∧ List.Forall₂ (Candidate.Revalued p) ds ds' := by
  obtain ⟨placed, hplaced, rfl⟩ := map_eq_ok.mp h
  cases figure : q.engagement.figure with
  | walk =>
    obtain ⟨placed', hplaced', related⟩ := Performance.events_of_bare figure timeline (tolerant figure) hplaced
    refine ⟨_, map_eq_ok.mpr ⟨placed', hplaced', rfl⟩, ?_⟩
    rw [List.forall₂_map_left_iff, List.forall₂_map_right_iff]
    exact related
  | riff riff =>
    -- a static riff is played as it is, with or without values
    have same : q.bare.events = q.events := by
      have figure' : q.bare.engagement.figure = .riff riff := figure
      simp only [Performance.events, Performance.riff, figure, figure']
      rfl
    refine ⟨_, map_eq_ok.mpr ⟨placed, same ▸ hplaced, rfl⟩, ?_⟩
    rw [List.forall₂_map_left_iff, List.forall₂_map_right_iff, List.forall₂_same]
    exact fun e _ => ⟨rfl, rfl, rfl, fun _ _ x hx => ⟨x, hx⟩⟩

/-! ### Runs -/

/-- A run with rules that are bound without values, and the one with their values. -/
def Correspondence.revalued (c : Catalog) (p : Progression) :
    Correspondence c (.ofProgression p) (.ofProgression p) where
  rule a b := a = b.bare ∧ ∀ r, c.richRule? b.ruleId = some r → r.isWalk = true → r.Tolerant
  engagement e e' := e = e'.bare ∧ (e'.figure = .walk → e'.rule.Tolerant)
  candidate := Candidate.Revalued p
  note := NoteEvent.SameBut
  applies := by
    rintro a b ⟨rfl, -⟩ partId
    rfl
  outcome := by
    rintro a b o ⟨rfl, tolerant⟩ h
    rw [Engagement.make_bare] at h
    obtain ⟨o', ho', rfl⟩ := map_eq_ok.mp h
    refine ⟨o', ho', ?_⟩
    cases o' with
    | error omission => exact .omitted rfl
    | ok e =>
      obtain ⟨-, known, length, played, -⟩ := Engagement.make_eq_engagement.mp ho'
      refine .engaged ⟨rfl, fun figure => tolerant e.rule known ?_⟩
      by_contra riff
      simp [Engagement.figureOf?, riff, figure] at played
  order := by
    rintro e f e' f' ⟨rfl, -⟩ ⟨rfl, -⟩
    rfl
  performances := by
    rintro e e' ⟨rfl, tolerant⟩
    rw [Engagement.performances_bare, List.forall₂_map_left_iff, List.forall₂_same]
    intro q hq ds hds
    have engaged := Candidate.engagement_of_mem_performances hq
    rw [← engaged] at tolerant
    exact Candidate.ofPerformance_of_bare (Candidate.timeline_of_mem_performances hq) tolerant hds
  rank d d' h := by
    rw [Candidate.specificity, h.performance]
    rfl
  beat d e d' e' h h' := by
    simp only [Candidate.beat, h.startBeat, h'.startBeat]
  sound _ _ _ _ h hn := h.note hn
  noteOrder := by
    intro m n m' n' h h'
    rw [h, h']
    rfl

/-- The voice of a part, and the one that it has with other tones. -/
structure Voice.SameBut (v w : Voice) : Prop where
  part : v.part = w.part
  notes : List.Forall₂ NoteEvent.SameBut v.notes w.notes

/-- All values of a binding lead to walk parameters exactly if the rule accepts none that is no walk
parameter; values that it does not accept do not count. With tolerant rules a run that has a result
without values has one with them. -/
theorem Arrangement.values_break_nothing (r : RichRule)
    (usable : ∃ params, r.defaultWalkParameters = .ok params) :
    ((∀ values : List (String × Setting),
      ∃ params, r.walkParameters (values.map fun v => (v.1, v.2.datum)) = .ok params) ↔ r.SchemaFits) ∧
    (∀ (before after : List (String × Datum)) (v : String × Datum),
      (∀ p ∈ r.parameters, p.1 = v.1 → p.2.accepts v.2 = false) →
        r.walkParameters (before ++ v :: after) = r.walkParameters (before ++ after)) ∧
    ∀ (c : Catalog) (p : Progression) (parts : List Part) (rules : List AppliedRule) (a : Arrangement),
      (∀ b ∈ rules, ∀ r, c.richRule? b.ruleId = some r → r.isWalk = true → r.Tolerant) →
        make p parts (rules.map AppliedRule.bare) c = .ok a →
          ∃ b, make p parts rules c = .ok b ∧ List.Forall₂ Voice.SameBut a.voices b.voices ∧
            b.diagnostics = a.diagnostics := by
  refine ⟨RichRule.forall_walkParameters_iff usable, ?_, ?_⟩
  · intro before after v rejected
    rw [RichRule.walkParameters, RichRule.merged_of_rejected rejected, RichRule.walkParameters]
  · intro c p parts rules a tolerant h
    have bound := BindingSet.toList_ofList_map (f := AppliedRule.bare) (fun _ _ => Iff.rfl) rules
    have listed : List.Forall₂ (Correspondence.revalued c p).rule
        (BindingSet.ofList (rules.map AppliedRule.bare)).toList (BindingSet.ofList rules).toList := by
      rw [bound, List.forall₂_map_left_iff, List.forall₂_same]
      exact fun b hb => ⟨rfl, tolerant b (BindingSet.mem_of_mem_ofList hb)⟩
    obtain ⟨b, hb, voices, told⟩ := make_of_correspondence (.revalued c p) listed h
    exact ⟨b, hb, voices.imp fun v w alike => ⟨alike.part, alike.notes⟩, told⟩

/-! ### The bundled walk -/

theorem Catalog.bundledWalk_fits : bundledWalk.SchemaFits where
  target := by
    rw [RichRule.fits_iff_of_choice (by rfl) rfl]
    have words : ∀ word ∈ ["nextChordRoot", "currentChordRoot"], word ∈ WalkTarget.all.map WalkTarget.word := by decide
    exact fun word hword => Codec.exists_decode_word_iff.mpr (words word hword)
  steps := by
    rw [RichRule.fits_iff_of_integer (by rfl) rfl]
    intro n low high
    exact Codec.exists_decode_intBetween_iff.mpr ⟨of_decide_eq_true low, of_decide_eq_true high⟩
  direction := by
    rw [RichRule.fits_iff_of_choice (by rfl) rfl]
    have words : ∀ word ∈ ["auto", "up", "down"], word ∈ WalkDirection.all.map WalkDirection.word := by decide
    exact fun word hword => Codec.exists_decode_word_iff.mpr (words word hword)
  approach := by
    rw [RichRule.fits_iff_of_choice (by rfl) rfl]
    have words : ∀ word ∈ ["chromatic", "diatonic", "mixed"], word ∈ Approach.all.map Approach.word := by decide
    exact fun word hword => Codec.exists_decode_word_iff.mpr (words word hword)
  register := by
    rw [RichRule.fits_iff_of_choice (by rfl) rfl]
    exact fun word _ => ⟨word, rfl⟩
  genreProfile := by
    rw [RichRule.fits_iff_of_choice (by rfl) rfl]
    exact fun word _ => ⟨word, rfl⟩

theorem Catalog.bundledWalk_tolerant : bundledWalk.Tolerant where
  fits := bundledWalk_fits
  near e he := by
    have close : ∀ e ∈ bundledWalk.templateEvents, (e.stepIndex.getD 1).natAbs ≤ 1000 := by decide
    have far (n : Nat) : n ≤ 2 ^ n := Nat.lt_two_pow_self.le
    exact (close e he).trans (far 1000)

/-- The bundled walk, bound with a choice that it has, a number out of range and a choice that it has not. -/
def valuedStride : AppliedRule :=
  { bundledStride with
    parameters := some [("direction", .text "down"), ("steps", .number 9), ("approachStrategy", .text "sideways")] }

theorem Arrangement.stride_with_values :
    (∃ params, Catalog.bundledWalk.defaultWalkParameters = .ok params) ∧
    Catalog.bundledWalk.SchemaFits ∧
    (∃ params, Catalog.bundledWalk.walkParameters valuedStride.values = .ok params) ∧
    (∀ p ∈ Catalog.bundledWalk.parameters, p.1 = "steps" → p.2.accepts (.int 9) = false) ∧
    Catalog.bundledWalk.walkParameters valuedStride.values =
      Catalog.bundledWalk.walkParameters [("direction", .text "down"), ("approachStrategy", .text "sideways")] ∧
    (∃ a, make threeBars [bassPart] ([valuedStride].map AppliedRule.bare) Catalog.bundled = .ok a) ∧
    ∃ b, make threeBars [bassPart] [valuedStride] Catalog.bundled = .ok b := by
  have usable : ∃ params, Catalog.bundledWalk.defaultWalkParameters = .ok params :=
    ⟨⟨.nextChordRoot, ⟨2, by decide⟩, .auto, .chromatic, "low", "custom"⟩, ok_of_toOption (by decide +kernel)⟩
  obtain ⟨total, passed, carried⟩ := values_break_nothing Catalog.bundledWalk usable
  have rejected : ∀ p ∈ Catalog.bundledWalk.parameters, p.1 = "steps" → p.2.accepts (.int 9) = false := by
    decide +kernel
  have tolerant : ∀ b ∈ [valuedStride], ∀ r, Catalog.bundled.richRule? b.ruleId = some r →
      r.isWalk = true → r.Tolerant := by
    intro b hb r known _
    obtain rfl := List.mem_singleton.mp hb
    have found : Catalog.bundled.richRule? valuedStride.ruleId = some Catalog.bundledWalk := rfl
    obtain rfl := Option.some.inj (known.symm.trans found)
    exact Catalog.bundledWalk_tolerant
  obtain ⟨a, made⟩ := make_bundledStride
  obtain ⟨b, hb, -⟩ := carried Catalog.bundled threeBars [bassPart] [valuedStride] a tolerant made
  exact ⟨usable, Catalog.bundledWalk_fits, total.mpr Catalog.bundledWalk_fits _, rejected,
    passed [("direction", .text "down")] [("approachStrategy", .text "sideways")] ("steps", .int 9) rejected,
    ⟨a, made⟩, b, hb⟩

/-! ### A wider range -/

/-- A walk whose rule accepts up to nine steps. -/
def wideRule : RichRule :=
  { walkRule "wide" ⟨4, four_beats_pos⟩ [⟨⟨1, first_in_bar⟩, 0, .startAnchor, none, none⟩] with
    parameters := [("steps", ⟨.integer, none, some 1, some 9, .number 2, ""⟩)] }

def wide : AppliedRule := ⟨"wide", .bar 1, none, some "low", some [("steps", .number 9)]⟩

def wideOver : Engagement := ⟨wide, wideRule, .walk, ⟨4, 5, 8, 1, 2⟩⟩

/-- Nine steps are accepted and not replaced by the default, but no walk has so many. -/
theorem Arrangement.nine_steps_break :
    wideRule.defaultWalkParameters = .ok usualWalk ∧
    wideRule.walkParameters wide.values =
      .error ⟨WalkParameters.title, [⟨[.key "steps"], .tooHigh 5, .int 9⟩]⟩ ∧
    (∃ a, make threeBars [bassPart] [wide.bare] (onlyRule wideRule) = .ok a) ∧
    ¬ ∃ b, make threeBars [bassPart] [wide] (onlyRule wideRule) = .ok b := by
  have span : wide.slot.span? (.ofProgression threeBars) (.whole wideRule.walkLength) =
    .ok (some wideOver.span) := rfl
  have found : (onlyRule wideRule).richRule? wide.ruleId = some wideRule := rfl
  refine ⟨ok_of_toOption (by decide +kernel), by rfl, ?_, ?_⟩
  · have played : (wideOver.bare.performances (.ofProgression threeBars)).mapM
        (Performance.notes (.ofProgression threeBars) bassPart) = .ok [[heldRoot "IV" 5]] :=
      ok_of_toOption (by decide +kernel)
    have span_bare : wide.bare.slot.span? (.ofProgression threeBars) (.whole wideRule.walkLength) =
      .ok (some wideOver.span) := rfl
    have found_bare : (onlyRule wideRule).richRule? wide.bare.ruleId = some wideRule := rfl
    obtain ⟨a, made, -⟩ := map_eq_ok.mp
      (map_voices_of_walk bassPart rfl rfl found_bare rfl span_bare played (by decide +kernel))
    exact ⟨a, made⟩
  · rintro ⟨b, made⟩
    have voices := map_voices_make threeBars [bassPart] [wide] (onlyRule wideRule)
    have one : [bassPart].filter (fun part => !part.muted) = [bassPart] := rfl
    rw [made, one] at voices
    obtain ⟨v, -, voice, -⟩ := List.forall₂_cons_left_iff.mp (mapM_eq_ok.mp voices.symm)
    have walked := (Voice.map_fst_make_of_walk rfl found rfl span).symm.trans voice
    obtain ⟨notes, hnotes, -⟩ := map_eq_ok.mp walked
    have refused : ((wideOver.performances (.ofProgression threeBars)).mapM
        (Performance.notes (.ofProgression threeBars) bassPart)).toOption = none := by decide +kernel
    exact Option.some_ne_none notes ((congrArg Except.toOption hnotes).symm.trans refused)

end Ostinato
