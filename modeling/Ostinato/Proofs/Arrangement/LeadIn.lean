import Ostinato.Proofs.Arrangement.Correspondence
import Ostinato.Proofs.BindingSet.History
import Ostinato.Proofs.Timeline.LeadIn
import Ostinato.Proofs.Timeline.Spans

/-!
# Arrangements after a lead-in

With chords in front of a progression, and its rules bound to the same places behind them, the parts
play the same notes later. Only the global slot is not moved, and beats beyond `2 ^ 53` are not exact.
-/

namespace Ostinato

open Success

/-! ### Contexts with the same chords -/

/-- Contexts whose current chords have one degree, and whose next chords have one. -/
structure PitchContext.SameChords (x y : PitchContext) : Prop where
  current : y.timeline.chordDegree? y.currentChord = x.timeline.chordDegree? x.currentChord
  next : y.timeline.chordDegree? y.nextChord = x.timeline.chordDegree? x.nextChord

namespace PitchContext.SameChords

variable {x y : PitchContext} (h : x.SameChords y)
include h

theorem resolve (r : PitchRef) : r.resolve y = r.resolve x := by
  have current : y.chordPitch? y.currentChord = x.chordPitch? x.currentChord := by
    rw [PitchContext.chordPitch?, PitchContext.chordPitch?, h.current]
  have next : y.chordPitch? y.nextChord = x.chordPitch? x.nextChord := by
    rw [PitchContext.chordPitch?, PitchContext.chordPitch?, h.next]
  simp only [PitchRef.resolve, PitchRef.base, PitchRef.hintedPitch?, current, next]

theorem walkPlan (r : RichRule) (params : WalkParameters) :
    WalkPlan.make r params y = WalkPlan.make r params x := by
  have start : anchorDegree y.timeline y.currentChord = anchorDegree x.timeline x.currentChord := by
    rw [anchorDegree, anchorDegree, h.current]
  have target : anchorDegree y.timeline (params.targetChord y) =
      anchorDegree x.timeline (params.targetChord x) := by
    unfold WalkParameters.targetChord
    cases params.target with
    | nextChordRoot => rw [anchorDegree, anchorDegree, h.next]
    | currentChordRoot => exact start
  rw [WalkPlan.make_eq, WalkPlan.make_eq, start, target]

theorem resolveWalk (r : RichRule) (values : List (String × Datum)) :
    r.resolveWalk values y = r.resolveWalk values x := by
  simp only [RichRule.resolveWalk, RichRule.walkRiff, h.walkPlan]

end PitchContext.SameChords

/-! ### Rules and notes that come later -/

variable (d : Delay)

def AppliedRule.later (a : AppliedRule) : AppliedRule := { a with slot := a.slot.later d }

def Engagement.later (e : Engagement) : Engagement :=
  { e with applied := e.applied.later d, span := e.span.later d }

/-- Whether the events of an engagement are on whole beats, none of which is after `last` when all are
moved by `shift` beats. -/
structure Engagement.LandsBy (e : Engagement) (shift last : Nat) : Prop where
  riff : ∀ r, e.figure = .riff r → ∀ event ∈ r.events, ∃ n : Nat,
    event.startBeat.val = .finite n ∧ e.span.startBeat + n - 1 + shift ≤ last
  walk : e.figure = .walk → ∀ event ∈ e.rule.templateEvents,
    e.span.startBeat + WalkPlan.beatOf event - 1 + shift ≤ (last : Int)

/-- Two notes that differ in nothing but their beats, which are whole and `shift` beats apart. -/
def NoteEvent.IsLater (shift : Nat) (m n : NoteEvent) : Prop :=
  ∃ beat : Nat, m.startBeat = .finite beat ∧ n = { m with startBeat := .finite (beat + shift : Nat) }

/-- The voice of a part and the same voice `shift` beats later, note by note. -/
structure Voice.IsLater (shift : Nat) (v w : Voice) : Prop where
  part : v.part = w.part
  notes : List.Forall₂ (NoteEvent.IsLater shift) v.notes w.notes

theorem AppliedRule.key_later_inj (a b : AppliedRule) : (a.later d).key = (b.later d).key ↔ a.key = b.key := by
  simp only [key, later, Prod.mk.injEq, Slot.later_inj]

theorem Engagement.notAfter_later (e f : Engagement) : (e.later d).notAfter (f.later d) = e.notAfter f := by
  rw [Bool.eq_iff_iff, notAfter_iff, notAfter_iff]
  simp only [later, SlotSpan.later, Nat.add_le_add_iff_right]

theorem Binary64.notAfter_natCast (m n : Nat) : (finite m).notAfter (finite n) = decide (m ≤ n) := by
  rw [Bool.eq_iff_iff, decide_eq_true_eq]
  simp only [notAfter, rank, place, Option.getD_some, Bool.or_eq_true, Bool.and_eq_true, decide_eq_true_eq,
    lt_irrefl, false_or, true_and, Nat.cast_le]

/-! ### The layers of a run -/

section Layers

variable {c : Catalog} {leadIn : List Chord} {p : Progression}

theorem Engagement.make_after {r : AppliedRule} {o : Except Omission Engagement} (place : r.slot ≠ .global)
    (chords : p.chords ≠ []) (h : make c (.ofProgression p) r = .ok o) :
    ∃ o', make c (.ofProgression (p.after leadIn)) (r.later (.of leadIn)) = .ok o' ∧
      OutcomesAlike (fun e e' => e' = e.later (.of leadIn) ∧ o = .ok e) o o' := by
  have id_later : (r.later (.of leadIn)).ruleId = r.ruleId := rfl
  have slot_later : (r.later (.of leadIn)).slot = r.slot.later (.of leadIn) := rfl
  simp only [make, id_later, slot_later, Slot.span?_after place chords] at h ⊢
  cases known : c.richRule? r.ruleId with
  | none =>
    rw [known] at h
    obtain rfl := Except.ok.inj h
    exact ⟨_, rfl, .omitted rfl⟩
  | some rule =>
    simp only [known] at h ⊢
    cases played : figureOf? c rule with
    | none =>
      rw [played] at h
      obtain rfl := Except.ok.inj h
      exact ⟨_, rfl, .omitted rfl⟩
    | some f =>
      simp only [played] at h ⊢
      obtain ⟨span, hspan, rfl⟩ := map_eq_ok.mp h
      rw [hspan]
      cases span with
      | none =>
        refine ⟨_, rfl, .omitted ?_⟩
        simp only [Omission.message, Slot.kind_later]
      | some span => exact ⟨_, rfl, .engaged ⟨rfl, rfl⟩⟩

theorem RiffBeat.one_le_of_eq {beat : RiffBeat} {n : Nat} (h : beat.val = .finite n) : 1 ≤ n := by
  have least := beat.property
  rw [h, Binary64.atLeastInt_iff rfl] at least
  exact_mod_cast least

/-- The riff of a performance has its events on whole beats, none of them too late. -/
theorem Performance.beats_of_landsBy {q : Performance} {shift : Nat} {riff : Riff}
    (lands : q.engagement.LandsBy shift (2 ^ 53 - 1)) (start : 1 ≤ q.engagement.span.startBeat)
    (h : q.riff = .ok riff) :
    ∀ event ∈ riff.events, ∃ n : Nat, event.startBeat.val = .finite n ∧ 1 ≤ n ∧
      q.engagement.span.startBeat + n + shift ≤ 2 ^ 53 := by
  intro event hevent
  cases figure : q.engagement.figure with
  | riff r =>
    rw [Performance.riff, figure] at h
    obtain rfl := Except.ok.inj h
    obtain ⟨n, value, early⟩ := lands.riff r figure event hevent
    exact ⟨n, value, RiffBeat.one_le_of_eq value, by omega⟩
  | walk =>
    rw [Performance.riff_eq_resolveWalk figure, RichRule.resolveWalk] at h
    obtain ⟨params, -, h⟩ := bind_eq_ok.mp h
    obtain ⟨w, events, length, -, hevents, -, rfl⟩ := RichRule.walkRiff_eq_ok.mp h
    obtain ⟨e, he, made⟩ := exists_of_mem_mapM hevents hevent
    obtain ⟨tone, beat, -, hbeat, rfl⟩ := WalkPlan.event_eq_ok.mp made
    obtain ⟨n, low, counted, -⟩ := WalkPlan.exists_beatOf e
    have early := lands.walk figure e he
    rw [counted] at hbeat early
    obtain ⟨read, hread, value⟩ := Codec.decode_realFrom_one low (show n ≤ 2 ^ 53 by omega)
    obtain rfl := Checked.ok.inj (hread.symm.trans hbeat)
    exact ⟨n, value, low, by omega⟩

/-- An event that is placed on a whole beat, and the same event `shift` beats later. -/
def PlacedEvent.IsLater (shift : Nat) (x y : PlacedEvent) : Prop :=
  ∃ n : Nat, 1 ≤ n ∧ x.startBeat = .finite n ∧ y = { x with startBeat := .finite (n + shift : Nat) }

theorem RiffEvent.place_later {event : RiffEvent} {start shift n : Nat} {x : PlacedEvent} (first : 1 ≤ start)
    (value : event.startBeat.val = .finite n) (low : 1 ≤ n) (near : start + n + shift ≤ 2 ^ 53)
    (h : event.place (.whole start) = .ok x) :
    ∃ y, event.place (.whole (start + shift : Nat)) = .ok y ∧ x.IsLater shift y := by
  rw [place_of_near event low value (by omega)] at h
  obtain rfl := Except.ok.inj h
  refine ⟨_, place_of_near event low value (by omega), start + n - 1, by omega, rfl, ?_⟩
  have beat : start + shift + n - 1 = start + n - 1 + shift := by omega
  rw [beat]

theorem Performance.events_later {q q' : Performance} {shift : Nat} {events : List PlacedEvent}
    (riff : q'.riff = q.riff) (first : 1 ≤ q.startBeat) (later : q'.startBeat = q.startBeat + shift)
    (beats : ∀ r, q.riff = .ok r → ∀ event ∈ r.events, ∃ n : Nat, event.startBeat.val = .finite n ∧ 1 ≤ n ∧
      q.startBeat + n + shift ≤ 2 ^ 53) (h : q.events = .ok events) :
    ∃ events', q'.events = .ok events' ∧ List.Forall₂ (PlacedEvent.IsLater shift) events events' := by
  obtain ⟨r, hr, placed⟩ := bind_eq_ok.mp h
  obtain ⟨events', placed', related⟩ := mapM_rel_of_mem (S := PlacedEvent.IsLater shift)
    (g := fun event : RiffEvent => event.place (.whole (q.startBeat + shift : Nat)))
    (fun event hevent x hx => by
      obtain ⟨n, value, low, near⟩ := beats r hr event hevent
      exact RiffEvent.place_later first value low near hx)
    (Failure.ofNumber_eq_ok.mp placed)
  refine ⟨events', ?_, related⟩
  rw [Performance.events, riff, hr, later]
  exact Failure.ofNumber_eq_ok.mpr placed'

/-- The candidates of a performance and of the same one after the lead-in: the event is the same but for
its beat, and so is the chord that sounds where there is none. -/
structure Candidate.Later (p : Progression) (leadIn : List Chord) (x y : Candidate) : Prop where
  engagement : y.performance.engagement = x.performance.engagement.later (.of leadIn)
  fallback : y.performance.fallbackChord = x.performance.fallbackChord + (Delay.of leadIn).chords
  event : x.event.IsLater (Delay.of leadIn).beats y.event

theorem soundingContext_after (p : Progression) (leadIn : List Chord) (fallback : Nat) {n : Nat} (first : 1 ≤ n) :
    (soundingContext (.ofProgression p) fallback (.finite n)).SameChords
      (soundingContext (.ofProgression (p.after leadIn)) (fallback + (Delay.of leadIn).chords)
        (.finite (n + (Delay.of leadIn).beats : Nat))) := by
  have first' : (1 : ℚ) ≤ n := by exact_mod_cast first
  have chord : ((Timeline.ofProgression (p.after leadIn)).chordIndexAt?
      (.real (.finite (n + (Delay.of leadIn).beats : Nat)))).getD (fallback + (Delay.of leadIn).chords) =
      ((Timeline.ofProgression p).chordIndexAt? (.real (.finite n))).getD fallback +
        (Delay.of leadIn).chords := by
    rw [Nat.cast_add, Timeline.chordIndexAt?_after leadIn p first']
    cases (Timeline.ofProgression p).chordIndexAt? (.real (.finite n)) with
    | none => rfl
    | some j => rfl
  obtain ⟨j, next, next_after⟩ := Timeline.nextChordIndex_after leadIn p
    (((Timeline.ofProgression p).chordIndexAt? (.real (.finite n))).getD fallback)
  constructor
  · simp only [soundingContext, chord]
    exact Timeline.chordDegree?_after leadIn p _
  · simp only [soundingContext, chord, next_after, next]
    exact Timeline.chordDegree?_after leadIn p j

theorem Candidate.note_later {x y : Candidate} (h : x.Later p leadIn y) {part : Part} {n : NoteEvent}
    (hn : x.note (.ofProgression p) part = .ok n) :
    ∃ n', y.note (.ofProgression (p.after leadIn)) part = .ok n' ∧ n.IsLater (Delay.of leadIn).beats n' := by
  obtain ⟨pitch, hpitch, rfl⟩ := note_eq_ok.mp hn
  obtain ⟨beat, first, at_beat, event⟩ := h.event
  have same := (soundingContext_after p leadIn x.performance.fallbackChord first).resolve x.event.pitchRef
  have later : y.beat = .finite (beat + (Delay.of leadIn).beats : Nat) := by rw [Candidate.beat, event]
  refine ⟨_, note_eq_ok.mpr ⟨pitch, ?_, rfl⟩, beat, at_beat, ?_⟩
  · rw [later, event, h.fallback, same, ← at_beat]
    exact hpitch
  · rw [later, event, h.engagement]
    rfl

theorem Engagement.sameChords_once (e : Engagement) (p : Progression) (leadIn : List Chord) :
    (e.once (.ofProgression p)).context.SameChords
      ((e.later (.of leadIn)).once (.ofProgression (p.after leadIn))).context := by
  have next : (if e.span.nextChord + (Delay.of leadIn).chords <
        (Timeline.ofProgression (p.after leadIn)).boundaries.length
      then e.span.nextChord + (Delay.of leadIn).chords else e.span.currentChord + (Delay.of leadIn).chords) =
      (if e.span.nextChord < (Timeline.ofProgression p).boundaries.length then e.span.nextChord
        else e.span.currentChord) + (Delay.of leadIn).chords := by
    rw [Timeline.length_boundaries_after]
    split_ifs <;> omega
  constructor
  · exact Timeline.chordDegree?_after leadIn p e.span.currentChord
  · change (Timeline.ofProgression (p.after leadIn)).chordDegree? (if e.span.nextChord +
      (Delay.of leadIn).chords < (Timeline.ofProgression (p.after leadIn)).boundaries.length
      then e.span.nextChord + (Delay.of leadIn).chords
      else e.span.currentChord + (Delay.of leadIn).chords : Nat) = _
    rw [next]
    exact Timeline.chordDegree?_after leadIn p _

/-- What a performance plays is told by its rule and by the chords of its context. -/
theorem Performance.riff_of_sameChords {q q' : Performance} (h : q.context.SameChords q'.context)
    (figure : q'.engagement.figure = q.engagement.figure) (rule : q'.engagement.rule = q.engagement.rule)
    (values : q'.engagement.applied.values = q.engagement.applied.values) : q'.riff = q.riff := by
  cases hf : q.engagement.figure with
  | riff r => rw [Performance.riff, Performance.riff, figure, hf]
  | walk =>
    rw [Performance.riff_eq_resolveWalk (figure.trans hf), Performance.riff_eq_resolveWalk hf, rule, values,
      h.resolveWalk]

theorem Engagement.performances_after {e : Engagement} (place : e.applied.slot ≠ .global)
    (start : 1 ≤ e.span.startBeat) (lands : e.LandsBy (Delay.of leadIn).beats (2 ^ 53 - 1)) :
    List.Forall₂ (fun q q' => ∀ ds, Candidate.ofPerformance q = .ok ds →
        ∃ ds', Candidate.ofPerformance q' = .ok ds' ∧ List.Forall₂ (Candidate.Later p leadIn) ds ds')
      (e.performances (.ofProgression p))
      ((e.later (.of leadIn)).performances (.ofProgression (p.after leadIn))) := by
  have place' : (e.later (.of leadIn)).applied.slot ≠ .global := by
    intro all
    exact place ((Slot.later_inj (.of leadIn)).mp all)
  have riff : ((e.later (.of leadIn)).once (.ofProgression (p.after leadIn))).riff =
      (e.once (.ofProgression p)).riff :=
    Performance.riff_of_sameChords (e.sameChords_once p leadIn) rfl rfl rfl
  rw [performances_of_place place, performances_of_place place']
  refine .cons (fun ds hds => ?_) .nil
  obtain ⟨events, hevents, rfl⟩ := map_eq_ok.mp hds
  obtain ⟨events', hevents', related⟩ := Performance.events_later riff start rfl
    (fun r hr => Performance.beats_of_landsBy lands start hr) hevents
  refine ⟨_, map_eq_ok.mpr ⟨events', hevents', rfl⟩, ?_⟩
  rw [List.forall₂_map_left_iff, List.forall₂_map_right_iff]
  exact related.imp fun _ _ later => ⟨rfl, rfl, later⟩

/-- The runs before and after the lead-in, layer by layer. -/
def Correspondence.delayed (c : Catalog) (leadIn : List Chord) (chords : p.chords ≠ []) :
    Correspondence c (.ofProgression p) (.ofProgression (p.after leadIn)) where
  rule r r' := r' = r.later (.of leadIn) ∧ r.slot ≠ .global ∧
    ∀ e, Engagement.make c (.ofProgression p) r = .ok (.ok e) →
      e.LandsBy (Delay.of leadIn).beats (2 ^ 53 - 1)
  engagement e e' := e' = e.later (.of leadIn) ∧ e.applied.slot ≠ .global ∧ 1 ≤ e.span.startBeat ∧
    e.LandsBy (Delay.of leadIn).beats (2 ^ 53 - 1)
  candidate := Candidate.Later p leadIn
  note := NoteEvent.IsLater (Delay.of leadIn).beats
  applies := by
    rintro r r' ⟨rfl, -⟩ partId
    rfl
  outcome := by
    rintro r r' o ⟨rfl, place, lands⟩ h
    obtain ⟨o', ho', alike⟩ := Engagement.make_after place chords h
    refine ⟨o', ho', ?_⟩
    cases alike with
    | omitted told => exact .omitted told
    | @engaged e e' related =>
      obtain ⟨rfl, -⟩ := related
      obtain ⟨applied, length, span⟩ := Engagement.span_of_make h
      exact .engaged ⟨rfl, by rwa [applied], (Slot.inside_of_span? span).1, lands e h⟩
  order := by
    rintro e f e' f' ⟨rfl, -⟩ ⟨rfl, -⟩
    exact (Engagement.notAfter_later _ e f).symm
  performances := by
    rintro e e' ⟨rfl, place, start, lands⟩
    exact Engagement.performances_after place start lands
  rank x y h := by
    rw [Candidate.specificity, Candidate.specificity, h.engagement]
    rfl
  beat := by
    rintro x u y v hx hu
    obtain ⟨m, -, at_m, later_m⟩ := hx.event
    obtain ⟨n, -, at_n, later_n⟩ := hu.event
    simp only [Candidate.beat, at_m, at_n, later_m, later_n, Binary64.finite.injEq, Nat.cast_inj,
      Nat.add_right_cancel_iff]
  sound x y part n h hn := Candidate.note_later h hn
  noteOrder := by
    rintro m n m' n' ⟨i, at_i, rfl⟩ ⟨j, at_j, rfl⟩
    simp only [NoteEvent.notAfter, at_i, at_j, Binary64.notAfter_natCast, Nat.add_le_add_iff_right]

end Layers

/-! ### Arrangements -/

/-- With chords in front of a progression, the rules bound to the same places behind them play the same
notes later, by four beats for each bar in front, and the messages are the same. -/
theorem Arrangement.delayed_by_leadIn {c : Catalog} {p : Progression} {leadIn : List Chord} {parts : List Part}
    {rules : List AppliedRule} {a : Arrangement} (chords : p.chords ≠ [])
    (places : ∀ r ∈ rules, r.slot ≠ .global)
    (lands : ∀ r ∈ rules, ∀ e, Engagement.make c (.ofProgression p) r = .ok (.ok e) →
      e.LandsBy (Delay.of leadIn).beats (2 ^ 53 - 1))
    (h : make p parts rules c = .ok a) :
    ∃ b, make (p.after leadIn) parts (rules.map (·.later (.of leadIn))) c = .ok b ∧
      List.Forall₂ (Voice.IsLater (Delay.of leadIn).beats) a.voices b.voices ∧
      b.diagnostics = a.diagnostics := by
  have bound := BindingSet.toList_ofList_map (AppliedRule.key_later_inj (.of leadIn)) rules
  have listed : List.Forall₂ (Correspondence.delayed c leadIn chords).rule (BindingSet.ofList rules).toList
      (BindingSet.ofList (rules.map (·.later (.of leadIn)))).toList := by
    rw [bound, List.forall₂_map_right_iff, List.forall₂_same]
    intro r hr
    have given : r ∈ rules := BindingSet.mem_of_mem_ofList hr
    exact ⟨rfl, places r given, lands r given⟩
  obtain ⟨b, hb, voices, told⟩ := make_of_correspondence (.delayed c leadIn chords) listed h
  exact ⟨b, hb, voices.imp fun v w alike => ⟨alike.part, alike.notes⟩, told⟩

/-! ### A second degree in front -/

def supertonic : Chord := ⟨"II", none, Count.one⟩

theorem landsBy_hold {e : Engagement} {shift last : Nat} (figure : e.figure = .riff hold)
    (near : e.span.startBeat + shift ≤ last) : e.LandsBy shift last := by
  constructor
  · intro r hr event hevent
    obtain rfl : hold = r := Figure.riff.inj (figure.symm.trans hr)
    obtain rfl := List.mem_singleton.mp hevent
    exact ⟨1, rfl, by omega⟩
  · intro walk
    rw [figure] at walk
    cases walk

theorem landsBy_walk {e : Engagement} {shift last : Nat} (figure : e.figure = .walk)
    (near : ∀ event ∈ e.rule.templateEvents,
      e.span.startBeat + WalkPlan.beatOf event - 1 + shift ≤ (last : Int)) : e.LandsBy shift last := by
  refine ⟨fun r hr => ?_, fun _ => near⟩
  rw [figure] at hr
  cases hr

theorem Arrangement.ground_delayed :
    threeBars.chords ≠ [] ∧ (∀ r ∈ groundRules, r.slot ≠ .global) ∧
    (∀ r ∈ groundRules, ∀ e, Engagement.make groundCatalog (.ofProgression threeBars) r = .ok (.ok e) →
      e.LandsBy (Delay.of [supertonic]).beats (2 ^ 53 - 1)) ∧
    make threeBars [bassPart] groundRules groundCatalog =
      .ok ⟨.ofProgression threeBars, [⟨bassPart, groundNotes⟩], []⟩ ∧
    ∃ b, make (threeBars.after [supertonic]) [bassPart] (groundRules.map (·.later (.of [supertonic])))
        groundCatalog = .ok b ∧
      List.Forall₂ (Voice.IsLater 4) [⟨bassPart, groundNotes⟩] b.voices ∧ b.diagnostics = [] := by
  have chords : threeBars.chords ≠ [] := by decide
  have places : ∀ r ∈ groundRules, r.slot ≠ .global := by decide
  have lands : ∀ r ∈ groundRules, ∀ e,
      Engagement.make groundCatalog (.ofProgression threeBars) r = .ok (.ok e) →
      e.LandsBy (Delay.of [supertonic]).beats (2 ^ 53 - 1) := by
    exact forall_engagements_ground (landsBy_hold rfl (by decide)) (landsBy_walk rfl (by decide +kernel))
      (landsBy_hold rfl (by decide))
  exact ⟨chords, places, lands, make_ground, delayed_by_leadIn chords places lands make_ground⟩

/-! ### Up to the last exact beat -/

def brinkRule : RichRule :=
  walkRule "far" ⟨4, four_beats_pos⟩ [⟨⟨4, fourth_in_bar⟩, 2 ^ 51 - 2, .startAnchor, none, none⟩]

def brink : Engagement := ⟨far, brinkRule, .walk, ⟨4, 1, 4, 0, 1⟩⟩

/-- A note that is moved to beat `2 ^ 53` itself comes a beat early. -/
theorem Arrangement.brink_not_delayed :
    threeBars.chords ≠ [] ∧ far.slot ≠ .global ∧
    (∀ e, Engagement.make (onlyRule brinkRule) (.ofProgression threeBars) far = .ok (.ok e) →
      e.LandsBy (Delay.of [supertonic]).beats (2 ^ 53)) ∧
    ∃ a b, make threeBars [bassPart] [far] (onlyRule brinkRule) = .ok a ∧
      make (threeBars.after [supertonic]) [bassPart] [far.later (.of [supertonic])] (onlyRule brinkRule) =
        .ok b ∧
      ¬ List.Forall₂ (Voice.IsLater (Delay.of [supertonic]).beats) a.voices b.voices := by
  have found : (onlyRule brinkRule).richRule? far.ruleId = some brinkRule := rfl
  have found_later : (onlyRule brinkRule).richRule? (far.later (.of [supertonic])).ruleId = some brinkRule :=
    rfl
  have span : far.slot.span? (.ofProgression threeBars) (.whole brinkRule.walkLength) =
    .ok (some brink.span) := rfl
  have span_later : (far.later (.of [supertonic])).slot.span? (.ofProgression (threeBars.after [supertonic]))
    (.whole brinkRule.walkLength) = .ok (some (brink.later (.of [supertonic])).span) := rfl
  have played : (brink.performances (.ofProgression threeBars)).mapM
      (Performance.notes (.ofProgression threeBars) bassPart) = .ok [[lowRoot (2 ^ 53 - 4)]] :=
    ok_of_toOption (by decide +kernel)
  have played_later : ((brink.later (.of [supertonic])).performances
      (.ofProgression (threeBars.after [supertonic]))).mapM
        (Performance.notes (.ofProgression (threeBars.after [supertonic])) bassPart) =
      .ok [[lowRoot (2 ^ 53 - 1)]] := ok_of_toOption (by decide +kernel)
  obtain ⟨a, ha, voices⟩ := map_eq_ok.mp
    (map_voices_of_walk bassPart rfl rfl found rfl span played (by decide +kernel))
  obtain ⟨b, hb, voices_later⟩ := map_eq_ok.mp
    (map_voices_of_walk bassPart rfl rfl found_later rfl span_later played_later (by decide +kernel))
  refine ⟨by decide, by decide, fun e made => ?_, a, b, ha, hb, fun alike => ?_⟩
  · obtain rfl : brink = e := Except.ok.inj (Except.ok.inj made)
    exact landsBy_walk rfl (by decide +kernel)
  · rw [voices, voices_later] at alike
    obtain ⟨beat, at_beat, later⟩ := (List.forall₂_cons.mp (List.forall₂_cons.mp alike).1.notes).1
    have on_last : (2 ^ 53 - 1 : ℚ) = (beat + (Delay.of [supertonic]).beats : Nat) :=
      Binary64.finite.inj (congrArg NoteEvent.startBeat later)
    have before : (2 ^ 53 - 4 : ℚ) = beat := Binary64.finite.inj at_beat
    have four : (Delay.of [supertonic]).beats = 4 := rfl
    rw [four, Nat.cast_add, ← before] at on_last
    norm_num at on_last

end Ostinato
