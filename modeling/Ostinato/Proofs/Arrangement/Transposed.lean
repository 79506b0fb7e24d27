import Ostinato.Proofs.Arrangement.Correspondence
import Ostinato.Proofs.BindingSet.History
import Ostinato.Proofs.Timeline.Outline
import Ostinato.Proofs.Timeline.Spans
import Ostinato.Proofs.Walk.Transposed

/-!
# Transposed arrangements

Rules that only look at chords play the same figures on the same beats when all chords are moved by one
interval, and all notes are moved by that interval.
-/

namespace Ostinato

open Success

variable {q : PitchClass} {p p' : Progression}

/-! ### Transposed progressions -/

/-- Two chords that are held equally long, the root of the second `q` semitones above that of the first. -/
structure Chord.Transposed (q : PitchClass) (c c' : Chord) : Prop where
  held : c'.held = c.held
  root : Transposes q c.root c'.root

/-- A progression, chord by chord `q` semitones above another one. -/
def Progression.Transposed (q : PitchClass) (p p' : Progression) : Prop :=
  List.Forall₂ (Chord.Transposed q) p.chords p'.chords

namespace Progression.Transposed

variable (h : p.Transposed q p')
include h

theorem outline : (Timeline.ofProgression p).outline = (Timeline.ofProgression p').outline :=
  Timeline.outline_ofProgression (h.imp fun _ _ chord => chord.held)

theorem chordDegree? {j : Nat} (inside : j < (Timeline.ofProgression p).boundaries.length) :
    ∃ s s', (Timeline.ofProgression p).chordDegree? j = some s ∧
      (Timeline.ofProgression p').chordDegree? j = some s' ∧ Transposes q s s' := by
  rw [Timeline.length_boundaries] at inside
  obtain ⟨length, chords⟩ := List.forall₂_iff_get.mp h
  have inside' : j < p'.chords.length := by omega
  refine ⟨_, _, ?_, ?_, (chords j inside inside').root⟩
  · simp only [Timeline.chordDegree?, itemAt?, Int.natCast_nonneg, if_true, Int.toNat_natCast,
      Timeline.boundary_ofProgression, List.getElem?_eq_getElem inside, Option.map_some, List.get_eq_getElem]
  · simp only [Timeline.chordDegree?, itemAt?, Int.natCast_nonneg, if_true, Int.toNat_natCast,
      Timeline.boundary_ofProgression, List.getElem?_eq_getElem inside', Option.map_some,
      List.get_eq_getElem]

theorem context {i j : Nat} (hi : i < (Timeline.ofProgression p).boundaries.length)
    (hj : j < (Timeline.ofProgression p).boundaries.length) :
    PitchContext.Transposed q ⟨.ofProgression p, i, j⟩ ⟨.ofProgression p', i, j⟩ :=
  ⟨h.chordDegree? hi, h.chordDegree? hj⟩

theorem soundingContext {fallback : Nat}
    (inside : fallback < (Timeline.ofProgression p).boundaries.length) (beat : Binary64) :
    PitchContext.Transposed q (soundingContext (.ofProgression p) fallback beat)
      (soundingContext (.ofProgression p') fallback beat) := by
  have found : (Timeline.ofProgression p').chordIndexAt? (.real beat) =
      (Timeline.ofProgression p).chordIndexAt? (.real beat) := by
    rw [← Timeline.chordIndexAt?_outline, ← h.outline, Timeline.chordIndexAt?_outline]
  have next (i : Int) : (Timeline.ofProgression p').nextChordIndex i =
      (Timeline.ofProgression p).nextChordIndex i := by
    rw [← Timeline.nextChordIndex_outline, ← h.outline, Timeline.nextChordIndex_outline]
  have chord_inside : ((Timeline.ofProgression p).chordIndexAt? (.real beat)).getD fallback <
      (Timeline.ofProgression p).boundaries.length := by
    cases at_beat : (Timeline.ofProgression p).chordIndexAt? (.real beat) with
    | none => exact inside
    | some j =>
      obtain ⟨b, hb, rfl⟩ := Option.map_eq_some_iff.mp at_beat
      obtain ⟨j, hj⟩ := List.getElem?_of_mem (List.mem_of_find?_eq_some hb)
      obtain ⟨-, index, chord⟩ := Timeline.inside_of_boundary hj
      rwa [Option.getD_some, index]
  simp only [Ostinato.soundingContext, found, next, Timeline.nextChordIndex_natCast]
  refine h.context chord_inside ?_
  split_ifs with follows
  · exact follows
  · exact chord_inside

end Progression.Transposed

/-! ### Performances -/

/-- An engagement that looks at nothing but chords: a riff with references to chords, or a walk that keeps
to its steps. -/
structure Engagement.FollowsChords (e : Engagement) : Prop where
  riff : ∀ r, e.figure = .riff r → ∀ event ∈ r.events, event.pitchRef.FollowsChords
  walk : e.figure = .walk → ∀ params, e.rule.walkParameters e.applied.values = .ok params →
    e.rule.WalksFreely params

/-- A performance works its figure out for chords of the timeline, and falls back on one of them. -/
theorem Engagement.inside_of_performances {c : Catalog} {r : AppliedRule} {e : Engagement} {x : Performance}
    (h : make c (.ofProgression p) r = .ok (.ok e)) (hx : x ∈ e.performances (.ofProgression p)) :
    x.fallbackChord < (Timeline.ofProgression p).boundaries.length ∧
    ∃ i j : Nat, x.context = ⟨.ofProgression p, i, j⟩ ∧
      i < (Timeline.ofProgression p).boundaries.length ∧ j < (Timeline.ofProgression p).boundaries.length := by
  obtain ⟨applied, length, hspan⟩ := span_of_make h
  by_cases place : e.applied.slot = .global
  · rw [performances, if_pos place] at hx
    obtain ⟨b, hb, rfl⟩ := List.mem_map.mp hx
    obtain ⟨i, hi⟩ := List.getElem?_of_mem hb
    obtain ⟨-, inside⟩ := Timeline.inside_of_bar hi
    refine ⟨inside, b.chordIndex, _, by rw [Timeline.nextChordIndex_natCast], inside, ?_⟩
    split_ifs with follows
    · exact follows
    · exact inside
  · rw [performances_of_place place, List.mem_singleton] at hx
    rw [applied] at place
    have inside := (Slot.inside_of_span? hspan).2 place
    rw [hx]
    refine ⟨inside, _, _, rfl, inside, ?_⟩
    split_ifs with follows
    · exact follows
    · exact inside

theorem Performance.riff_transposed {x y : Performance} (same : y.engagement = x.engagement)
    (follows : x.engagement.FollowsChords) (h : x.context.Transposed q y.context) {riff : Riff}
    (hriff : x.riff = .ok riff) :
    ∃ riff', y.riff = .ok riff' ∧ List.Forall₂ (RiffEvent.Rises q) riff.events riff'.events := by
  cases figure : x.engagement.figure with
  | riff r =>
    rw [Performance.riff, figure] at hriff
    obtain rfl := Except.ok.inj hriff
    refine ⟨r, by rw [Performance.riff, same, figure], List.forall₂_same.mpr fun event hevent => ?_⟩
    exact ⟨rfl, rfl, rfl, (follows.riff r figure event hevent).rises⟩
  | walk =>
    have figure' : y.engagement.figure = .walk := by rw [same, figure]
    rw [Performance.riff_eq_resolveWalk figure, RichRule.resolveWalk] at hriff
    obtain ⟨params, hparams, hriff⟩ := bind_eq_ok.mp hriff
    obtain ⟨riff', hriff', apart⟩ := RichRule.walkRiff_transposed
      (follows.walk figure params (Failure.ofRecord_eq_ok.mp hparams)) h hriff
    refine ⟨riff', ?_, apart⟩
    rw [Performance.riff_eq_resolveWalk figure', same, RichRule.resolveWalk]
    exact bind_eq_ok.mpr ⟨params, hparams, hriff'⟩

/-- Two placed events that differ in nothing but their references, one `q` semitones above the other. -/
structure PlacedEvent.Rises (q : PitchClass) (x y : PlacedEvent) : Prop where
  startBeat : y.startBeat = x.startBeat
  duration : y.duration = x.duration
  octaveStrategy : y.octaveStrategy = x.octaveStrategy
  pitchRef : x.pitchRef.Rises q y.pitchRef

theorem RiffEvent.Rises.place {e e' : RiffEvent} (h : e.Rises q e') {start : Amount} {x : PlacedEvent}
    (hx : e.place start = .ok x) : ∃ y, e'.place start = .ok y ∧ x.Rises q y := by
  obtain ⟨first, hfirst, rfl⟩ := RiffEvent.place_eq_ok.mp hx
  refine ⟨_, RiffEvent.place_eq_ok.mpr ⟨first, hfirst, rfl⟩, ?_, ?_, ?_, h.pitchRef⟩
  · rw [h.startBeat]
  · rw [h.duration]
  · rw [h.octaveStrategy]

/-- Two candidates on one beat, of one engagement, one `q` semitones above the other. -/
structure Candidate.Transposed (p : Progression) (q : PitchClass) (x y : Candidate) : Prop where
  engagement : y.performance.engagement = x.performance.engagement
  fallback : y.performance.fallbackChord = x.performance.fallbackChord
  inside : x.performance.fallbackChord < (Timeline.ofProgression p).boundaries.length
  event : x.event.Rises q y.event

theorem Performance.events_transposed {x y : Performance} (same : y.engagement = x.engagement)
    (start : y.startBeat = x.startBeat) (follows : x.engagement.FollowsChords)
    (h : x.context.Transposed q y.context) {events : List PlacedEvent} (hevents : x.events = .ok events) :
    ∃ events', y.events = .ok events' ∧ List.Forall₂ (PlacedEvent.Rises q) events events' := by
  obtain ⟨riff, hriff, hplaced⟩ := bind_eq_ok.mp hevents
  obtain ⟨riff', hriff', apart⟩ := riff_transposed same follows h hriff
  obtain ⟨events', hevents', related⟩ := mapM_rel₂ (S := PlacedEvent.Rises q)
    (g := fun e : RiffEvent => e.place (.whole x.startBeat))
    (fun e e' placed (rises : e.Rises q e') hx => rises.place hx) apart (Failure.ofNumber_eq_ok.mp hplaced)
  refine ⟨events', bind_eq_ok.mpr ⟨riff', hriff', Failure.ofNumber_eq_ok.mpr ?_⟩, related⟩
  rw [start]
  exact hevents'

/-- Two performances of one engagement at one place, on chords `q` semitones apart. -/
structure Performance.Transposed (q : PitchClass) (x y : Performance) : Prop where
  engagement : y.engagement = x.engagement
  startBeat : y.startBeat = x.startBeat
  fallback : y.fallbackChord = x.fallbackChord
  context : x.context.Transposed q y.context

theorem Performance.transposed_of_outline {x y : Performance} (apart : p.Transposed q p')
    (same : x.outline = y.outline) (timeline : y.context.timeline = .ofProgression p') {i j : Nat}
    (context : x.context = ⟨.ofProgression p, i, j⟩) (hi : i < (Timeline.ofProgression p).boundaries.length)
    (hj : j < (Timeline.ofProgression p).boundaries.length) : x.Transposed q y := by
  have current : y.context.currentChord = i := by
    have := congrArg (fun z : Performance => z.context.currentChord) same
    simpa [outline, context] using this.symm
  have next : y.context.nextChord = j := by
    have := congrArg (fun z : Performance => z.context.nextChord) same
    simpa [outline, context] using this.symm
  have context' : y.context = ⟨.ofProgression p', i, j⟩ := by rw [← timeline, ← current, ← next]
  refine ⟨?_, ?_, ?_, ?_⟩
  · exact (congrArg (fun z : Performance => z.engagement) same).symm
  · exact (congrArg (fun z : Performance => z.startBeat) same).symm
  · exact (congrArg (fun z : Performance => z.fallbackChord) same).symm
  · rw [context, context']
    exact apart.context hi hj

theorem Engagement.performances_transposed {c : Catalog} {r : AppliedRule} {e : Engagement}
    (apart : p.Transposed q p') (h : make c (.ofProgression p) r = .ok (.ok e)) (follows : e.FollowsChords) :
    List.Forall₂ (fun x y => ∀ ds, Candidate.ofPerformance x = .ok ds →
        ∃ ds', Candidate.ofPerformance y = .ok ds' ∧ List.Forall₂ (Candidate.Transposed p q) ds ds')
      (e.performances (.ofProgression p)) (e.performances (.ofProgression p')) := by
  obtain ⟨length, paired⟩ := List.forall₂_iff_zip.mp (e.performances_of_outline apart.outline)
  refine List.forall₂_iff_zip.mpr ⟨length, fun {x y} hxy ds hds => ?_⟩
  obtain ⟨hx, hy⟩ := List.of_mem_zip hxy
  obtain ⟨fallback, i, j, context, hi, hj⟩ := inside_of_performances h hx
  have at_place := Performance.transposed_of_outline apart (paired hxy)
    (Candidate.timeline_of_mem_performances hy) context hi hj
  have engaged := Candidate.engagement_of_mem_performances hx
  obtain ⟨events, hevents, rfl⟩ := map_eq_ok.mp hds
  obtain ⟨events', hevents', related⟩ := Performance.events_transposed at_place.engagement at_place.startBeat
    (by rwa [engaged]) at_place.context hevents
  refine ⟨_, map_eq_ok.mpr ⟨events', hevents', rfl⟩, ?_⟩
  rw [List.forall₂_map_left_iff, List.forall₂_map_right_iff]
  exact related.imp fun _ _ rises => ⟨at_place.engagement, at_place.fallback, fallback, rises⟩

/-! ### Notes -/

/-- Two notes that differ in nothing but their degrees, the second of which is `q` semitones higher. -/
structure NoteEvent.Transposed (q : PitchClass) (m n : NoteEvent) : Prop where
  startBeat : n.startBeat = m.startBeat
  duration : n.duration = m.duration
  octave : n.octave = m.octave
  partId : n.partId = m.partId
  partName : n.partName = m.partName
  pitch : ∃ s, degreePitch m.degree = .ok s ∧ degreePitch n.degree = .ok (s + q)

theorem Candidate.note_transposed {x y : Candidate} (apart : p.Transposed q p') (h : x.Transposed p q y)
    {part : Part} {m : NoteEvent} (hm : x.note (.ofProgression p) part = .ok m) :
    ∃ n, y.note (.ofProgression p') part = .ok n ∧ m.Transposed q n := by
  obtain ⟨pitch, hpitch, rfl⟩ := note_eq_ok.mp hm
  have same_beat : y.beat = x.beat := h.event.startBeat
  have raised := h.event.pitchRef _ _ (apart.soundingContext h.inside x.beat) pitch hpitch
  refine ⟨_, note_eq_ok.mpr ⟨pitch + q, ?_, rfl⟩, ?_⟩
  · rw [h.fallback, same_beat]
    exact raised
  · refine ⟨same_beat, h.event.duration, ?_, rfl, rfl, pitch, degreePitch_degree pitch,
      degreePitch_degree (pitch + q)⟩
    rw [h.engagement]

/-! ### Arrangements -/

/-- The runs on two progressions that are `q` semitones apart, layer by layer. -/
def Correspondence.transposed (c : Catalog) (apart : p.Transposed q p') :
    Correspondence c (.ofProgression p) (.ofProgression p') where
  rule r r' := r' = r ∧ ∀ e, Engagement.make c (.ofProgression p) r = .ok (.ok e) → e.FollowsChords
  engagement e e' := e' = e ∧ e.FollowsChords ∧
    ∃ r, Engagement.make c (.ofProgression p) r = .ok (.ok e)
  candidate := Candidate.Transposed p q
  note := NoteEvent.Transposed q
  applies := by
    rintro r r' ⟨rfl, -⟩ partId
    rfl
  outcome := by
    rintro r r' o ⟨rfl, follows⟩ h
    refine ⟨o, by rwa [← Engagement.make_of_outline c apart.outline], ?_⟩
    cases o with
    | error o => exact .omitted rfl
    | ok e => exact .engaged ⟨rfl, follows e h, r', h⟩
  order := by
    rintro e f e' f' ⟨rfl, -⟩ ⟨rfl, -⟩
    rfl
  performances := by
    rintro e e' ⟨rfl, follows, r, made⟩
    exact Engagement.performances_transposed apart made follows
  rank x y h := by rw [Candidate.specificity, Candidate.specificity, h.engagement]
  beat x u y v hx hu := by
    simp only [Candidate.beat, hx.event.startBeat, hu.event.startBeat]
  sound x y part n h hn := Candidate.note_transposed apart h hn
  noteOrder m n m' n' hm hn := by rw [NoteEvent.notAfter, NoteEvent.notAfter, hm.startBeat, hn.startBeat]

/-- The voice of a part and the same voice `q` semitones higher, note by note. -/
structure Voice.Transposed (q : PitchClass) (v w : Voice) : Prop where
  part : v.part = w.part
  notes : List.Forall₂ (NoteEvent.Transposed q) v.notes w.notes

/-- On a progression whose chords are `q` semitones higher, rules that follow the chords play the same
notes, `q` semitones higher, and the messages are the same. -/
theorem Arrangement.transposed_with_chords {c : Catalog} {parts : List Part} {rules : List AppliedRule}
    {a : Arrangement} (apart : p.Transposed q p')
    (follows : ∀ r ∈ rules, ∀ e, Engagement.make c (.ofProgression p) r = .ok (.ok e) → e.FollowsChords)
    (h : make p parts rules c = .ok a) :
    ∃ b, make p' parts rules c = .ok b ∧ List.Forall₂ (Voice.Transposed q) a.voices b.voices ∧
      b.diagnostics = a.diagnostics := by
  have listed : List.Forall₂ (Correspondence.transposed c apart).rule (BindingSet.ofList rules).toList
      (BindingSet.ofList rules).toList := by
    rw [List.forall₂_same]
    intro r hr
    exact ⟨rfl, follows r (BindingSet.mem_of_mem_ofList hr)⟩
  obtain ⟨b, hb, voices, told⟩ := make_of_correspondence (.transposed c apart) listed h
  exact ⟨b, hb, voices.imp fun v w alike => ⟨alike.part, alike.notes⟩, told⟩

/-! ### A whole tone higher -/

def threeBarsHigher : Progression :=
  { threeBars with chords := ["II", "V", "VI"].map fun degree => ⟨degree, none, Count.one⟩ }

theorem threeBars_transposed : threeBars.Transposed 2 threeBarsHigher := by
  refine .cons ⟨rfl, by decide +kernel, by decide +kernel, 0, ?_, ?_⟩
    (.cons ⟨rfl, by decide +kernel, by decide +kernel, 5, ?_, ?_⟩
      (.cons ⟨rfl, by decide +kernel, by decide +kernel, 7, ?_, ?_⟩ .nil))
  all_goals exact ok_of_toOption (by decide +kernel)

theorem followsChords_hold {e : Engagement} (figure : e.figure = .riff hold) : e.FollowsChords := by
  constructor
  · intro r hr event hevent
    obtain rfl : hold = r := Figure.riff.inj (figure.symm.trans hr)
    obtain rfl := List.mem_singleton.mp hevent
    exact .inr ⟨.inl rfl, fun degree given => by cases given⟩
  · intro walk
    rw [figure] at walk
    cases walk

theorem followsChords_pace : paceOver.FollowsChords := by
  constructor
  · intro r hr
    cases hr
  · intro _ params hparams
    have usual : paceRule.walkParameters pace.values = .ok usualWalk := ok_of_toOption (by decide +kernel)
    obtain rfl : usualWalk = params := Except.ok.inj (usual.symm.trans hparams)
    exact ⟨by decide, by decide⟩

theorem Arrangement.ground_transposed :
    threeBars.Transposed 2 threeBarsHigher ∧
    (∀ r ∈ groundRules, ∀ e, Engagement.make groundCatalog (.ofProgression threeBars) r = .ok (.ok e) →
      e.FollowsChords) ∧
    make threeBars [bassPart] groundRules groundCatalog =
      .ok ⟨.ofProgression threeBars, [⟨bassPart, groundNotes⟩], []⟩ ∧
    ∃ b, make threeBarsHigher [bassPart] groundRules groundCatalog = .ok b ∧
      List.Forall₂ (Voice.Transposed 2) [⟨bassPart, groundNotes⟩] b.voices ∧ b.diagnostics = [] := by
  have follows : ∀ r ∈ groundRules, ∀ e,
      Engagement.make groundCatalog (.ofProgression threeBars) r = .ok (.ok e) → e.FollowsChords :=
    forall_engagements_ground (followsChords_hold rfl) followsChords_pace (followsChords_hold rfl)
  exact ⟨threeBars_transposed, follows, make_ground,
    transposed_with_chords threeBars_transposed follows make_ground⟩

end Ostinato
