import Ostinato.Proofs.Arrangement.WalkNotes
import Ostinato.Proofs.Walk.Rooted

/-!
# Chords without a root

A chord whose degree is no label sounds as the first degree. In its place the first degree itself can
stand, and all parts play as before, but for one case: a walk that starts or ends on such a chord gives
the symbol as a hint, which is not read where it lands, so that the chord that is met there sounds.
-/

namespace Ostinato

open Success

/-! ### Performances of walks -/

/-- An event of a figure as it is played when the first degree stands for chords without a root. -/
def Figure.rooted (f : Figure) (e : PlacedEvent) : PlacedEvent :=
  match f with
  | riff _ => e
  | walk => e.rooted

theorem Performance.events_of_walk {q : Performance} (figure : q.engagement.figure = .walk) :
    q.events = (do
      let params ← Failure.ofRecord (q.engagement.rule.walkParameters q.engagement.applied.values)
      let events ← (q.engagement.rule.walkRiff params q.context).map Riff.events
      Failure.ofNumber (events.mapM fun e => e.place (.whole q.startBeat))) := by
  rw [events, riff_eq_resolveWalk figure, RichRule.resolveWalk]
  cases q.engagement.rule.walkParameters q.engagement.applied.values with
  | error f => rfl
  | ok params =>
    simp only [Failure.ofRecord_ok, bind, Except.bind]
    cases q.engagement.rule.walkRiff params q.context with
    | error f => rfl
    | ok riff => rfl

theorem Performance.events_rooted (q : Performance) :
    (q.mapDegrees rootedDegree).events = q.events.map (List.map q.engagement.figure.rooted) := by
  cases figure : q.engagement.figure with
  | riff riff =>
    have same : (q.mapDegrees rootedDegree).events = q.events := by
      simp only [events, Performance.riff, mapDegrees, figure]
    have kept : (Figure.riff riff).rooted = id := rfl
    rw [same, kept]
    cases q.events <;> simp [Except.map]
  | walk =>
    have figure' : (q.mapDegrees rootedDegree).engagement.figure = .walk := figure
    rw [events_of_walk figure, events_of_walk figure']
    have engaged : (q.mapDegrees rootedDegree).engagement = q.engagement := rfl
    have start : (q.mapDegrees rootedDegree).startBeat = q.startBeat := rfl
    have context : (q.mapDegrees rootedDegree).context = q.context.mapDegrees rootedDegree := rfl
    rw [engaged, start, context]
    cases q.engagement.rule.walkParameters q.engagement.applied.values with
    | error f => rfl
    | ok params =>
      simp only [Failure.ofRecord_ok, bind, Except.bind, RichRule.events_walkRiff_rooted]
      cases q.engagement.rule.walkRiff params q.context with
      | error f => rfl
      | ok riff =>
        simp only [Except.map, RiffEvent.mapM_place_rooted]
        cases riff.events.mapM fun e => e.place (.whole q.startBeat) with
        | error f => rfl
        | ok placed => rfl

/-! ### Candidates -/

namespace Candidate

def rooted (d : Candidate) : Candidate :=
  ⟨d.performance.mapDegrees rootedDegree, d.performance.engagement.figure.rooted d.event⟩

@[simp] theorem beat_rooted (d : Candidate) : d.rooted.beat = d.beat := by
  unfold beat rooted Figure.rooted
  cases d.performance.engagement.figure <;> rfl

@[simp] theorem specificity_rooted (d : Candidate) : d.rooted.specificity = d.specificity := rfl

theorem wins_rooted (all : List Candidate) (d : Candidate) :
    d.rooted.wins (all.map rooted) = d.wins all := by
  simp [wins]

theorem ofPerformance_rooted (q : Performance) :
    ofPerformance (q.mapDegrees rootedDegree) = (ofPerformance q).map (List.map rooted) := by
  rw [ofPerformance, ofPerformance, Performance.events_rooted]
  cases q.events with
  | error f => rfl
  | ok events =>
    simp only [Except.map, List.map_map]
    rfl

theorem ofEngagements_rooted (t : Timeline) (es : List Engagement) :
    ofEngagements (t.mapDegrees rootedDegree) es = (ofEngagements t es).map (List.map rooted) := by
  have places : (es.flatMap fun e => e.performances (t.mapDegrees rootedDegree)) =
      (es.flatMap (·.performances t)).map (Performance.mapDegrees rootedDegree) := by
    simp only [Engagement.performances_mapDegrees, List.map_flatMap]
  have each : (es.flatMap (·.performances t)).mapM
      (ofPerformance ∘ Performance.mapDegrees rootedDegree) =
        ((es.flatMap (·.performances t)).mapM ofPerformance).map (List.map (List.map rooted)) := by
    rw [map_mapM]
    exact mapM_congr fun q _ => ofPerformance_rooted q
  rw [ofEngagements, ofEngagements, places, List.mapM_map, each]
  cases (es.flatMap (·.performances t)).mapM ofPerformance with
  | error f => rfl
  | ok css =>
    simp only [Except.map, List.map_flatten]

end Candidate

/-! ### Notes -/

theorem Timeline.exists_degreePitch_of_chordDegree? {p : Progression} {i : Int} {degree : String}
    (h : (ofProgression p).chordDegree? i = some degree) : ∃ x, degreePitch degree = .ok x := by
  obtain ⟨b, hb, rfl⟩ := Option.map_eq_some_iff.mp h
  unfold itemAt? at hb
  split_ifs at hb
  obtain ⟨chord, -, root⟩ := exists_chord_of_mem_boundaries (List.mem_of_getElem? hb)
  rw [root]
  exact exists_degreePitch_chordDegree chord.degree

theorem PitchRef.exists_resolve_of_not_label {p : Progression} {basis : PitchBasis} {tone : String}
    (hbasis : basis = .currentChord ∨ basis = .nextChord) (unread : isDegreeLabel tone = false)
    {context : PitchContext} (timeline : context.timeline = .ofProgression p) :
    ∃ x, resolve ⟨basis, 0, some tone⟩ context = .ok x := by
  have chord (i : Int) : ∃ x, hintedPitch? (some tone) context i = .ok x := by
    simp only [hintedPitch?, unread, Bool.false_eq_true, if_false, PitchContext.chordPitch?, timeline]
    cases hd : (Timeline.ofProgression p).chordDegree? i with
    | none => exact ⟨none, rfl⟩
    | some degree =>
      obtain ⟨x, hx⟩ := Timeline.exists_degreePitch_of_chordDegree? hd
      exact ⟨some x, by simp only [hx]; rfl⟩
  obtain ⟨x, hx⟩ := chord context.currentChord
  obtain ⟨y, hy⟩ := chord context.nextChord
  rcases hbasis with rfl | rfl
  · simp only [resolve, base, hx]
    exact ⟨_, rfl⟩
  · simp only [resolve, base, hy]
    exact ⟨_, rfl⟩

theorem Performance.pitchRef_of_walk {q : Performance} (figure : q.engagement.figure = .walk)
    {placed : List PlacedEvent} (h : q.events = .ok placed) {e : PlacedEvent} (he : e ∈ placed) :
    ∃ basis tone, e.pitchRef = ⟨basis, 0, some tone⟩ ∧ (basis = .currentChord ∨ basis = .nextChord) := by
  rw [events_of_walk figure] at h
  obtain ⟨params, -, h⟩ := bind_eq_ok.mp h
  obtain ⟨events, hevents, h⟩ := bind_eq_ok.mp h
  obtain ⟨riff, hriff, rfl⟩ := map_eq_ok.mp hevents
  obtain ⟨event, hevent, made⟩ := exists_of_mem_mapM (Failure.ofNumber_eq_ok.mp h) he
  obtain ⟨first, -, rfl⟩ := RiffEvent.place_eq_ok.mp made
  obtain ⟨w, all, length, hw, hall, -, rfl⟩ := RichRule.walkRiff_eq_ok.mp hriff
  obtain ⟨template, -, written⟩ := exists_of_mem_mapM hall hevent
  obtain ⟨tone, x, -, -, rfl⟩ := WalkPlan.event_eq_ok.mp written
  exact ⟨_, tone, rfl, WalkPlan.basisOf_chord template⟩

namespace Candidate

/-- Whether a candidate is a tone of a walk whose hint is no label, and so is not read. -/
def unrooted (d : Candidate) : Bool :=
  d.performance.engagement.figure == .walk &&
    d.event.pitchRef.degreeHint.any fun tone => !isDegreeLabel tone

/-- Whether a tone of a walk that stands for the first degree is played as another one. -/
def Strays (t : Timeline) (part : Part) (d : Candidate) : Prop :=
  d.unrooted = true ∧ ∃ n, d.note t part = .ok n ∧ n.degree ≠ "I"

/-- The note of a candidate, with the first degree in place of a hint that is not read. -/
def settle (d : Candidate) (n : NoteEvent) : NoteEvent :=
  if d.unrooted then { n with degree := "I" } else n

theorem settle_eq (d : Candidate) (n : NoteEvent) :
    d.settle n = { n with degree := (d.settle n).degree } := by
  unfold settle
  split <;> rfl

theorem settle_eq_self_iff {t : Timeline} {part : Part} {d : Candidate} {n : NoteEvent}
    (h : d.note t part = .ok n) : d.settle n = n ↔ ¬ d.Strays t part := by
  unfold settle Strays
  split
  · rename_i unread
    constructor
    · rintro kept ⟨-, m, hm, other⟩
      obtain rfl : n = m := Except.ok.inj (h.symm.trans hm)
      exact other (congrArg NoteEvent.degree kept).symm
    · intro settled
      have first : n.degree = "I" := by
        by_contra other
        exact settled ⟨unread, n, h, other⟩
      rw [← first]
  · rename_i read
    simp [read]

/-- The note that a candidate is played as at a pitch. -/
def sound (d : Candidate) (part : Part) (pitch : PitchClass) : NoteEvent :=
  ⟨d.beat, d.event.duration, pitch.degree,
    Register.octave (Register.choose d.performance.engagement.applied part
      (some d.performance.engagement.rule)), part.id, part.name⟩

theorem note_eq (t : Timeline) (part : Part) (d : Candidate) :
    d.note t part = Failure.ofNumber ((d.event.pitchRef.resolve
      (soundingContext t d.performance.fallbackChord d.beat)).map (d.sound part)) := rfl

theorem sound_rooted (d : Candidate) (part : Part) : d.rooted.sound part = d.sound part := by
  have duration : d.rooted.event.duration = d.event.duration := by
    unfold rooted Figure.rooted
    cases d.performance.engagement.figure <;> rfl
  funext pitch
  unfold sound
  rw [beat_rooted, duration]
  rfl

theorem exists_events_of_mem {t : Timeline} {es : List Engagement} {cs : List Candidate}
    (h : ofEngagements t es = .ok cs) {d : Candidate} (hd : d ∈ cs) :
    ∃ events, d.performance.events = .ok events ∧ d.event ∈ events := by
  obtain ⟨css, hcss, rfl⟩ := ofEngagements_eq_ok.mp h
  obtain ⟨ds, hds, hd⟩ := List.mem_flatten.mp hd
  obtain ⟨q, -, made⟩ := exists_of_mem_mapM hcss hds
  obtain ⟨events, hevents, rfl⟩ := map_eq_ok.mp made
  obtain ⟨e, he, rfl⟩ := List.mem_map.mp hd
  exact ⟨events, hevents, he⟩

theorem note_rooted {p : Progression} {es : List Engagement} {cs : List Candidate}
    (h : ofEngagements (.ofProgression p) es = .ok cs) {d : Candidate} (hd : d ∈ cs) (part : Part) :
    d.rooted.note ((Timeline.ofProgression p).mapDegrees rootedDegree) part =
      (d.note (.ofProgression p) part).map d.settle := by
  have fallback : d.rooted.performance.fallbackChord = d.performance.fallbackChord := rfl
  rw [note_eq, note_eq, fallback, beat_rooted, sound_rooted, soundingContext_mapDegrees,
    PitchRef.resolve_rooted]
  set context := soundingContext (.ofProgression p) d.performance.fallbackChord d.beat
  have unchanged (read : d.unrooted = false) (same : d.rooted.event.pitchRef = d.event.pitchRef) :
      Failure.ofNumber ((d.rooted.event.pitchRef.resolve context).map (d.sound part)) =
        (Failure.ofNumber ((d.event.pitchRef.resolve context).map (d.sound part))).map d.settle := by
    have settled : d.settle = id := by
      funext n
      simp [settle, read]
    rw [same, settled]
    cases d.event.pitchRef.resolve context <;> rfl
  cases figure : d.performance.engagement.figure with
  | riff riff =>
    have event : d.rooted.event = d.event := by
      unfold rooted
      rw [figure]
      rfl
    refine unchanged ?_ (by rw [event])
    simp [unrooted, figure]
  | walk =>
    have event : d.rooted.event = d.event.rooted := by
      unfold rooted
      rw [figure]
      rfl
    obtain ⟨events, hevents, he⟩ := exists_events_of_mem h hd
    obtain ⟨basis, tone, href, hbasis⟩ := Performance.pitchRef_of_walk figure hevents he
    cases label : isDegreeLabel tone with
    | true =>
      refine unchanged ?_ ?_
      · simp [unrooted, figure, href, label]
      · simp only [event, PlacedEvent.rooted, href, PitchRef.rooted, Option.map_some,
          rootedDegree_of_label label]
    | false =>
      -- the first degree is read wherever it lands, and the symbol is not
      have first : d.rooted.event.pitchRef = ⟨basis, 0, some "I"⟩ := by
        simp only [event, PlacedEvent.rooted, href, PitchRef.rooted, Option.map_some,
          rootedDegree_of_not_label label]
      have unread : d.unrooted = true := by simp [unrooted, figure, href, label]
      have timeline : context.timeline = .ofProgression p := rfl
      obtain ⟨x, hx⟩ := PitchRef.exists_resolve_of_not_label hbasis label timeline
      rw [first, PitchRef.resolve_of_label hbasis (by decide), href, hx]
      simp only [Except.map, Failure.ofNumber_ok, settle, unread, if_true]
      rfl

end Candidate

/-! ### Voices -/

/-- The candidates that are played, each with its note. -/
def playedNotes (t : Timeline) (part : Part) (cs : List Candidate) :
    Except Failure (List (Candidate × NoteEvent)) :=
  (cs.filter (Candidate.wins cs)).mapM fun d => (d.note t part).map (Prod.mk d)

theorem winningNotes_eq_ok {t : Timeline} {part : Part} {cs : List Candidate} {notes : List NoteEvent} :
    winningNotes t part cs = .ok notes ↔
      ∃ played, playedNotes t part cs = .ok played ∧ played.map Prod.snd = notes := by
  have plain : winningNotes t part cs =
      (cs.filter (Candidate.wins cs)).mapM fun d => (d.note t part).map ((fun _ n => n) d) := by
    refine mapM_congr fun d _ => ?_
    cases d.note t part <;> rfl
  rw [plain, mapM_map_eq_ok]
  rfl

theorem winningNotes_rooted_eq_ok {p : Progression} {part : Part} {es : List Engagement}
    {cs : List Candidate} (h : Candidate.ofEngagements (.ofProgression p) es = .ok cs)
    {notes : List NoteEvent} :
    winningNotes ((Timeline.ofProgression p).mapDegrees rootedDegree) part (cs.map Candidate.rooted) =
      .ok notes ↔ ∃ played, playedNotes (.ofProgression p) part cs = .ok played ∧
        played.map (fun x => x.1.settle x.2) = notes := by
  -- the same candidates win, since neither beats nor specificities depend on degrees
  have settled : winningNotes ((Timeline.ofProgression p).mapDegrees rootedDegree) part
      (cs.map Candidate.rooted) =
        (cs.filter (Candidate.wins cs)).mapM fun d => (d.note (.ofProgression p) part).map d.settle := by
    have same_winners : Candidate.wins (cs.map Candidate.rooted) ∘ Candidate.rooted = Candidate.wins cs :=
      funext (Candidate.wins_rooted cs)
    rw [winningNotes, List.filter_map, same_winners, List.mapM_map]
    exact mapM_congr fun d hd => Candidate.note_rooted h (List.mem_filter.mp hd).1 part
  rw [settled, mapM_map_eq_ok]
  rfl

section Main

variable {c : Catalog} {p : Progression} {rules : List AppliedRule} {part : Part}

/-- How the voice with the first degree in place of chords without a root compares with the voice as it
is: only degrees can be others, and none is exactly if no tone of a walk that is played strays. -/
structure Voice.Settled (c : Catalog) (t : Timeline) (rules : List AppliedRule) (v w : Voice) : Prop where
  part : w.part = v.part
  alike : List.Forall₂ (fun m n => n = { m with degree := n.degree }) v.notes w.notes
  same_iff : ∃ roster candidates, Roster.make c t v.part.id rules = .ok roster ∧
    Candidate.ofEngagements t roster.engagements = .ok candidates ∧
    (w.notes = v.notes ↔ ∀ d ∈ candidates, d.wins candidates = true → ¬ d.Strays t v.part)

theorem Candidate.settle_startBeat (d : Candidate) (n : NoteEvent) :
    (d.settle n).startBeat = n.startBeat := by
  rw [settle_eq]

theorem mergeSort_settled (played : List (Candidate × NoteEvent)) :
    (played.map fun x => x.1.settle x.2).mergeSort NoteEvent.notAfter =
      (played.mergeSort fun x y => x.2.notAfter y.2).map fun x => x.1.settle x.2 := by
  refine (List.map_mergeSort fun x _ y _ => ?_).symm
  simp only [NoteEvent.notAfter, Candidate.settle_startBeat]

theorem mergeSort_played (played : List (Candidate × NoteEvent)) :
    (played.map Prod.snd).mergeSort NoteEvent.notAfter =
      (played.mergeSort fun x y => x.2.notAfter y.2).map Prod.snd := by
  refine (List.map_mergeSort fun x _ y _ => ?_).symm
  rfl

theorem Voice.make_eq_ok_of_played {v : Voice} {omissions : List Omission} :
    Voice.make c (.ofProgression p) rules part = .ok (v, omissions) ↔ ∃ roster cs played,
      Roster.make c (.ofProgression p) part.id rules = .ok roster ∧
      Candidate.ofEngagements (.ofProgression p) roster.engagements = .ok cs ∧
      playedNotes (.ofProgression p) part cs = .ok played ∧
      v = ⟨part, (played.map Prod.snd).mergeSort NoteEvent.notAfter⟩ ∧ omissions = roster.omissions := by
  simp only [Voice.make_eq_ok, Roster.make_eq_ok, winningNotes_eq_ok]
  constructor
  · rintro ⟨outcomes, cs, _, made, hcs, ⟨played, hplayed, rfl⟩, rfl, rfl⟩
    exact ⟨_, cs, played, ⟨outcomes, made, rfl⟩, hcs, hplayed, rfl, rfl⟩
  · rintro ⟨_, cs, played, ⟨outcomes, made, rfl⟩, hcs, hplayed, rfl, rfl⟩
    exact ⟨outcomes, cs, _, made, hcs, ⟨played, hplayed, rfl⟩, rfl, rfl⟩

theorem Voice.make_rooted_eq_ok {w : Voice} {omissions : List Omission} :
    Voice.make c (.ofProgression p.rooted) rules part = .ok (w, omissions) ↔ ∃ roster cs played,
      Roster.make c (.ofProgression p) part.id rules = .ok roster ∧
      Candidate.ofEngagements (.ofProgression p) roster.engagements = .ok cs ∧
      playedNotes (.ofProgression p) part cs = .ok played ∧
      w = ⟨part, (played.map fun x => x.1.settle x.2).mergeSort NoteEvent.notAfter⟩ ∧
      omissions = roster.omissions := by
  simp only [Voice.make_eq_ok, Timeline.ofProgression_rooted, Engagement.make_mapDegrees,
    Candidate.ofEngagements_rooted, map_eq_ok, Roster.make_eq_ok]
  constructor
  · rintro ⟨outcomes, _, notes, made, ⟨cs, hcs, rfl⟩, hnotes, rfl, rfl⟩
    obtain ⟨played, hplayed, rfl⟩ := (winningNotes_rooted_eq_ok hcs).mp hnotes
    exact ⟨_, cs, played, ⟨outcomes, made, rfl⟩, hcs, hplayed, rfl, rfl⟩
  · rintro ⟨_, cs, played, ⟨outcomes, made, rfl⟩, hcs, hplayed, rfl, rfl⟩
    have hnotes := (winningNotes_rooted_eq_ok hcs).mpr ⟨played, hplayed, rfl⟩
    exact ⟨outcomes, _, _, made, ⟨cs, hcs, rfl⟩, hnotes, rfl, rfl⟩

theorem playedNotes_same_iff {t : Timeline} {cs : List Candidate} {played : List (Candidate × NoteEvent)}
    (h : playedNotes t part cs = .ok played) :
    (∀ x ∈ played, x.1.settle x.2 = x.2) ↔
      ∀ d ∈ cs, d.wins cs = true → ¬ d.Strays t part := by
  constructor
  · intro kept d hd wins
    obtain ⟨x, hx, made⟩ := exists_mem_of_mapM h (List.mem_filter.mpr ⟨hd, wins⟩)
    obtain ⟨n, hn, rfl⟩ := map_eq_ok.mp made
    exact (Candidate.settle_eq_self_iff hn).mp (kept _ hx)
  · intro none_strays x hx
    obtain ⟨d, hd, made⟩ := exists_of_mem_mapM h hx
    obtain ⟨n, hn, rfl⟩ := map_eq_ok.mp made
    obtain ⟨hd, wins⟩ := List.mem_filter.mp hd
    exact (Candidate.settle_eq_self_iff hn).mpr (none_strays d hd wins)

theorem Voice.settled_of_played {roster : Roster} {cs : List Candidate}
    {played : List (Candidate × NoteEvent)}
    (hroster : Roster.make c (.ofProgression p) part.id rules = .ok roster)
    (hcs : Candidate.ofEngagements (.ofProgression p) roster.engagements = .ok cs)
    (hplayed : playedNotes (.ofProgression p) part cs = .ok played) :
    Voice.Settled c (.ofProgression p) rules
      ⟨part, (played.map Prod.snd).mergeSort NoteEvent.notAfter⟩
      ⟨part, (played.map fun x => x.1.settle x.2).mergeSort NoteEvent.notAfter⟩ where
  part := rfl
  alike := by
    simp only [mergeSort_settled, mergeSort_played, List.forall₂_map_left_iff, List.forall₂_map_right_iff]
    exact List.forall₂_same.mpr fun x _ => x.1.settle_eq x.2
  same_iff := by
    refine ⟨roster, cs, hroster, hcs, ?_⟩
    rw [← playedNotes_same_iff hplayed, mergeSort_settled, mergeSort_played, List.map_inj_left]
    simp only [(List.mergeSort_perm played _).mem_iff]

theorem Voice.make_settled {v : Voice} {omissions : List Omission}
    (h : Voice.make c (.ofProgression p) rules part = .ok (v, omissions)) :
    ∃ w, Voice.make c (.ofProgression p.rooted) rules part = .ok (w, omissions) ∧
      Voice.Settled c (.ofProgression p) rules v w := by
  obtain ⟨roster, cs, played, hroster, hcs, hplayed, rfl, rfl⟩ := make_eq_ok_of_played.mp h
  exact ⟨_, make_rooted_eq_ok.mpr ⟨roster, cs, played, hroster, hcs, hplayed, rfl, rfl⟩,
    settled_of_played hroster hcs hplayed⟩

theorem Voice.exists_make_of_rooted {w : Voice × List Omission}
    (h : Voice.make c (.ofProgression p.rooted) rules part = .ok w) :
    ∃ v, Voice.make c (.ofProgression p) rules part = .ok v := by
  obtain ⟨w, omissions⟩ := w
  obtain ⟨roster, cs, played, hroster, hcs, hplayed, -, -⟩ := make_rooted_eq_ok.mp h
  exact ⟨_, make_eq_ok_of_played.mpr ⟨roster, cs, played, hroster, hcs, hplayed, rfl, rfl⟩⟩

theorem flatMap_snd_eq_of_forall₂ {R : Voice → Voice → Prop}
    {results results' : List (Voice × List Omission)} (h : List.Forall₂ (fun x y => R x.1 y.1 ∧ y.2 = x.2) results results') :
    results'.flatMap (·.2) = results.flatMap (·.2) := by
  induction h with
  | nil => rfl
  | cons related _ ih => rw [List.flatMap_cons, List.flatMap_cons, related.2, ih]

/-- With the first degree in place of each chord without a root, the parts play the same notes but for the
degrees of tones that stray: those of walks that start or end on such a chord, where they land on a chord
that is not built on the first degree. Where one of the two has no result, neither has the other. -/
theorem Arrangement.rootless_as_first (p : Progression) (parts : List Part) (rules : List AppliedRule)
    (c : Catalog) :
    ((∃ a, make p parts rules c = .ok a) ↔ ∃ b, make p.rooted parts rules c = .ok b) ∧
    ∀ a, make p parts rules c = .ok a → ∃ b, make p.rooted parts rules c = .ok b ∧
      b.diagnostics = a.diagnostics ∧
      List.Forall₂ (Voice.Settled c a.timeline (BindingSet.ofList rules).toList) a.voices b.voices := by
  have settled : ∀ a, make p parts rules c = .ok a → ∃ b, make p.rooted parts rules c = .ok b ∧
      b.diagnostics = a.diagnostics ∧
      List.Forall₂ (Voice.Settled c a.timeline (BindingSet.ofList rules).toList) a.voices b.voices := by
    intro a ha
    obtain ⟨results, hresults, rfl⟩ := make_eq_ok.mp ha
    have step : ∀ part result,
        Voice.make c (.ofProgression p) (BindingSet.ofList rules).toList part = .ok result →
        ∃ result', Voice.make c (.ofProgression p.rooted) (BindingSet.ofList rules).toList part = .ok result' ∧
          Voice.Settled c (.ofProgression p) (BindingSet.ofList rules).toList result.1 result'.1 ∧
            result'.2 = result.2 := by
      rintro part ⟨v, omissions⟩ made
      obtain ⟨w, hw, alike⟩ := Voice.make_settled made
      exact ⟨_, hw, alike, rfl⟩
    obtain ⟨results', hresults', alike⟩ := mapM_rel step hresults
    refine ⟨_, make_eq_ok.mpr ⟨results', hresults', rfl⟩, ?_, ?_⟩
    · simp only [flatMap_snd_eq_of_forall₂ alike]
    · rw [List.forall₂_map_left_iff, List.forall₂_map_right_iff]
      exact alike.imp fun _ _ h => h.1
  refine ⟨⟨fun ⟨a, ha⟩ => ?_, fun ⟨b, hb⟩ => ?_⟩, settled⟩
  · obtain ⟨b, hb, -, -⟩ := settled a ha
    exact ⟨b, hb⟩
  · obtain ⟨results', hresults', rfl⟩ := make_eq_ok.mp hb
    obtain ⟨results, hresults⟩ := exists_mapM fun part hpart =>
      Voice.exists_make_of_rooted (exists_mem_of_mapM hresults' hpart).choose_spec.2
    exact ⟨_, make_eq_ok.mpr ⟨results, hresults, rfl⟩⟩

end Main

/-! ### A walk to a chord without a root -/

/-- The second bar holds a symbol that has no root. -/
def rootlessBar : Progression :=
  ⟨"rootless-bar", "C", ["I", "X", "V"].map fun degree => ⟨degree, none, Count.one⟩, [], ""⟩

theorem five_beats_pos : (0 : Int) < 5 := by decide

def arriveRule : RichRule :=
  walkRule "arrive" ⟨5, five_beats_pos⟩ [⟨⟨1, first_in_bar⟩, 1, .targetAnchor, none, some "targetChordRoot"⟩]

def arrive : AppliedRule := ⟨"arrive", .bar 0, none, some "low", none⟩

def arriveAt : Engagement := ⟨arrive, arriveRule, .walk, ⟨4, 1, 4, 0, 1⟩⟩

theorem voices_arrive (p : Progression) (notes : List NoteEvent)
    (hspan : arrive.slot.span? (.ofProgression p) (.whole arriveRule.walkLength) = .ok (some arriveAt.span))
    (hnotes : (arriveAt.performances (.ofProgression p)).mapM
      (Performance.notes (.ofProgression p) bassPart) = .ok [notes])
    (sorted : notes.Pairwise fun m n => m.notAfter n = true) :
    (Arrangement.make p [bassPart] [arrive] (onlyRule arriveRule)).map (·.voices) =
      .ok [⟨bassPart, notes⟩] := by
  have found : (onlyRule arriveRule).richRule? arrive.ruleId = some arriveRule := rfl
  have one : [notes].flatten = notes := List.append_nil notes
  rw [← one] at sorted ⊢
  exact Arrangement.map_voices_of_walk bassPart rfl rfl found rfl hspan hnotes sorted

theorem voices_arrive_rootless :
    (Arrangement.make rootlessBar [bassPart] [arrive] (onlyRule arriveRule)).map (·.voices) =
      .ok [⟨bassPart, [heldRoot "V" 5]⟩] :=
  voices_arrive rootlessBar [heldRoot "V" 5] rfl (ok_of_toOption (by decide +kernel)) (by decide +kernel)

theorem voices_arrive_rooted :
    (Arrangement.make rootlessBar.rooted [bassPart] [arrive] (onlyRule arriveRule)).map (·.voices) =
      .ok [⟨bassPart, [heldRoot "I" 5]⟩] :=
  voices_arrive rootlessBar.rooted [heldRoot "I" 5] rfl (ok_of_toOption (by decide +kernel))
    (by decide +kernel)

/-- The walk arrives on the chord without a root and plays the fifth degree, which is the chord after it;
where the first degree stands for the chord without a root, it plays the first degree. -/
theorem Arrangement.arrival_strays :
    rootlessBar.rooted.chords.map Chord.root = ["I", "I", "V"] ∧
    (make rootlessBar [bassPart] [arrive] (onlyRule arriveRule)).map (·.voices) =
      .ok [⟨bassPart, [heldRoot "V" 5]⟩] ∧
    (make rootlessBar.rooted [bassPart] [arrive] (onlyRule arriveRule)).map (·.voices) =
      .ok [⟨bassPart, [heldRoot "I" 5]⟩] ∧
    heldRoot "V" 5 ≠ heldRoot "I" 5 :=
  ⟨by decide +kernel, voices_arrive_rootless, voices_arrive_rooted, by decide +kernel⟩

theorem Arrangement.arrival_as_first :
    ∃ a b, make rootlessBar [bassPart] [arrive] (onlyRule arriveRule) = .ok a ∧
      make rootlessBar.rooted [bassPart] [arrive] (onlyRule arriveRule) = .ok b ∧
      a.voices = [⟨bassPart, [heldRoot "V" 5]⟩] ∧ b.voices = [⟨bassPart, [heldRoot "I" 5]⟩] ∧
      b.diagnostics = a.diagnostics ∧
      List.Forall₂ (Voice.Settled (onlyRule arriveRule) a.timeline [arrive]) a.voices b.voices := by
  obtain ⟨a, ha, voices⟩ := map_eq_ok.mp voices_arrive_rootless
  obtain ⟨b, hb, diagnostics, settled⟩ :=
    (rootless_as_first rootlessBar [bassPart] [arrive] (onlyRule arriveRule)).2 a ha
  have voices' := voices_arrive_rooted
  rw [hb] at voices'
  exact ⟨a, b, ha, hb, voices, Except.ok.inj voices', diagnostics, settled⟩

end Ostinato
