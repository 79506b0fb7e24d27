import Mathlib.Algebra.Group.Fin.Basic
import Ostinato.Proofs.Walk.Tones

/-!
# Walks between transposed chords

Distances between pitches do not change when all pitches are moved alike. So a walk between transposed
chords goes the same way in steps of the same size, and its tones are transposed with the chords.
-/

namespace Ostinato

open Success

/-! ### Pitches -/

namespace PitchClass

theorem ofInt_add (m n : Int) : ofInt (m + n) = ofInt m + ofInt n := by
  apply Fin.ext
  simp only [ofInt, Fin.val_add]
  omega

theorem ofInt_val_add (p q : PitchClass) (n : Int) : ofInt ((p + q).val + n) = ofInt (p.val + n) + q := by
  rw [ofInt_add, ofInt_add, ofInt_val, ofInt_val, add_right_comm]

end PitchClass

namespace Direction

variable (d : Direction) (start target q : PitchClass)

theorem distance_add : d.distance (start + q) (target + q) = d.distance start target := by
  cases d with
  | up => simp only [distance, add_sub_add_right_eq_sub]
  | down => simp only [distance, add_sub_add_right_eq_sub]

theorem move_add (n : Int) : d.move (start + q) n = d.move start n + q := by
  cases d with
  | up => exact PitchClass.ofInt_val_add start q n
  | down =>
    simp only [move, sub_eq_add_neg]
    exact PitchClass.ofInt_val_add start q (-n)

theorem shorter_add : shorter (start + q) (target + q) = shorter start target := by
  simp only [shorter, distance_add]

end Direction

theorem walkDistance_add (d : Direction) (start target q : PitchClass) :
    walkDistance d (start + q) (target + q) = walkDistance d start target := by
  simp only [walkDistance, Direction.distance_add]

theorem approachPitch_add (d : Direction) (target q : PitchClass) :
    approachPitch (target + q) d false = approachPitch target d false + q := by
  cases d with
  | up => exact add_sub_right_comm target q PitchClass.semitone
  | down => exact add_right_comm target q PitchClass.semitone

theorem walkPitches_add (d : Direction) (start target q : PitchClass) (steps : Int) :
    walkPitches d (start + q) (target + q) steps false =
      (walkPitches d start target steps false).map fun ps => ps.map (· + q) := by
  rw [walkPitches, walkPitches, walkDistance_add]
  cases travelled (walkDistance d start target) steps with
  | error fault => rfl
  | ok moves =>
    refine congrArg Except.ok ?_
    simp only [List.map_map]
    exact List.map_congr_left fun n _ => d.move_add start q n

theorem length_travelled {distance : Nat} {steps : Int} {moves : List Int}
    (h : travelled distance steps = .ok moves) : moves.length = steps.toNat := by
  simp only [travelled, bind_eq_ok] at h
  obtain ⟨size, -, hmoves⟩ := h
  rw [← (mapM_eq_ok.mp hmoves).length_eq, List.length_range]

theorem length_walkPitches {d : Direction} {start target : PitchClass} {steps : Int} {snaps : Bool}
    {ps : List PitchClass} (h : walkPitches d start target steps snaps = .ok ps) :
    ps.length = steps.toNat := by
  simp only [walkPitches, bind_eq_ok, pure_eq_ok] at h
  obtain ⟨moves, hmoves, rfl⟩ := h
  rw [List.length_map, length_travelled hmoves]

/-! ### Degrees -/

/-- Two labels, the second of which sounds `q` semitones above the first. -/
structure Transposes (q : PitchClass) (s s' : String) : Prop where
  label : isDegreeLabel s = true
  label' : isDegreeLabel s' = true
  pitch : ∃ p, degreePitch s = .ok p ∧ degreePitch s' = .ok (p + q)

theorem transposes_degree (p q : PitchClass) : Transposes q p.degree (p + q).degree :=
  ⟨isDegreeLabel_degree p, isDegreeLabel_degree (p + q), p, degreePitch_degree p,
    degreePitch_degree (p + q)⟩

variable {q : PitchClass}

theorem Transposes.chooseDirection {s s' t t' : String} (hs : Transposes q s s') (ht : Transposes q t t') :
    chooseDirection s' t' = chooseDirection s t := by
  obtain ⟨p, hp, hp'⟩ := hs.pitch
  obtain ⟨r, hr, hr'⟩ := ht.pitch
  simp only [Ostinato.chooseDirection, hp, hp', hr, hr', bind, Except.bind, Direction.shorter_add]

theorem Transposes.walkSteps {s s' t t' : String} (hs : Transposes q s s') (ht : Transposes q t t')
    {steps : Int} {d : Direction} {notes : List String} (h : walkSteps s t steps d false = .ok notes) :
    notes.length = steps.toNat ∧
      ∃ notes', Ostinato.walkSteps s' t' steps d false = .ok notes' ∧
        List.Forall₂ (Transposes q) notes notes' := by
  obtain ⟨p, hp, hp'⟩ := hs.pitch
  obtain ⟨r, hr, hr'⟩ := ht.pitch
  simp only [Ostinato.walkSteps, hp, hp', hr, hr', bind_eq_ok, pure_eq_ok, Except.ok.injEq,
    exists_eq_left'] at h ⊢
  obtain ⟨ps, hps, rfl⟩ := h
  refine ⟨?_, (ps.map (· + q)).map (·.degree), ⟨ps.map (· + q), ?_, rfl⟩, ?_⟩
  · rw [List.length_map, length_walkPitches hps]
  · rw [walkPitches_add, hps]
    rfl
  · rw [List.map_map, List.forall₂_map_left_iff, List.forall₂_map_right_iff, List.forall₂_same]
    intro p _
    exact transposes_degree p q

theorem Transposes.approachTone {s s' tone : String} (hs : Transposes q s s') {d : Direction}
    (h : approachTone s d false = .ok tone) :
    ∃ tone', Ostinato.approachTone s' d false = .ok tone' ∧ Transposes q tone tone' := by
  obtain ⟨p, hp, hp'⟩ := hs.pitch
  simp only [Ostinato.approachTone, hp, hp', bind_eq_ok, pure_eq_ok, Except.ok.injEq, exists_eq_left',
    approachPitch_add] at h ⊢
  rw [← h]
  exact transposes_degree (approachPitch p d false) q

/-! ### Contexts -/

/-- Contexts on the timeline, the chords of the second one `q` semitones above those of the first. -/
structure PitchContext.Transposed (q : PitchClass) (x y : PitchContext) : Prop where
  current : ∃ s s', x.timeline.chordDegree? x.currentChord = some s ∧
    y.timeline.chordDegree? y.currentChord = some s' ∧ Transposes q s s'
  next : ∃ s s', x.timeline.chordDegree? x.nextChord = some s ∧
    y.timeline.chordDegree? y.nextChord = some s' ∧ Transposes q s s'

theorem anchorDegree_of_label {t : Timeline} {i : Int} {s : String} (h : t.chordDegree? i = some s)
    (label : isDegreeLabel s = true) : anchorDegree t i = s := by
  have given : s ≠ "" := by
    rintro rfl
    revert label
    decide
  simp only [anchorDegree, h, given, if_false]

variable {x y : PitchContext}

theorem PitchContext.Transposed.start (h : x.Transposed q y) :
    Transposes q (anchorDegree x.timeline x.currentChord) (anchorDegree y.timeline y.currentChord) := by
  obtain ⟨s, s', hs, hs', apart⟩ := h.current
  rwa [anchorDegree_of_label hs apart.label, anchorDegree_of_label hs' apart.label']

theorem PitchContext.Transposed.target (h : x.Transposed q y) (params : WalkParameters) :
    Transposes q (anchorDegree x.timeline (params.targetChord x))
      (anchorDegree y.timeline (params.targetChord y)) := by
  unfold WalkParameters.targetChord
  cases params.target with
  | nextChordRoot =>
    obtain ⟨s, s', hs, hs', apart⟩ := h.next
    simp only [anchorDegree_of_label hs apart.label, anchorDegree_of_label hs' apart.label', apart]
  | currentChordRoot => exact h.start

/-! ### Plans -/

/-- A walk that keeps to its steps: its tones are not brought onto the scale, and no event asks for a step
beyond those that the walk has. -/
structure RichRule.WalksFreely (r : RichRule) (params : WalkParameters) : Prop where
  chromatic : staysInScale (r.walkProfile params.genreProfile) (params.approach == .chromatic) = false
  steps : ∀ e ∈ r.templateEvents, e.role = .walkStep →
    1 ≤ e.stepIndex.getD 1 ∧ e.stepIndex.getD 1 ≤ params.steps.val

/-- Two walks of one shape between transposed chords. -/
structure WalkPlan.Transposed (q : PitchClass) (steps : StepCount) (w w' : WalkPlan) : Prop where
  start : Transposes q w.start w'.start
  target : Transposes q w.target w'.target
  direction : w'.direction = w.direction
  snaps : w.snaps = false ∧ w'.snaps = false
  notes : List.Forall₂ (Transposes q) w.notes w'.notes
  length : (w.notes.length : Int) = steps.val

namespace WalkPlan

variable {r : RichRule} {params : WalkParameters} {w w' : WalkPlan}

theorem make_transposed (free : r.WalksFreely params) (h : x.Transposed q y) (hw : make r params x = .ok w) :
    ∃ w', make r params y = .ok w' ∧ w.Transposed q params.steps w' := by
  obtain ⟨d, notes, hd, hnotes, rfl⟩ := make_eq_ok.mp hw
  rw [free.chromatic] at hnotes
  obtain ⟨length, notes', hnotes', apart⟩ := h.start.walkSteps (h.target params) hnotes
  have leading : params.leading (anchorDegree y.timeline y.currentChord)
      (anchorDegree y.timeline (params.targetChord y)) = .ok d := by
    rw [← hd]
    unfold WalkParameters.leading
    cases params.direction with
    | up => rfl
    | down => rfl
    | auto => exact h.start.chooseDirection (h.target params)
  have least := params.steps.property.1
  refine ⟨_, make_eq_ok.mpr ⟨d, notes', leading, by rwa [free.chromatic], rfl⟩, h.start, h.target params,
    rfl, ⟨free.chromatic, free.chromatic⟩, apart, ?_⟩
  rw [length]
  exact Int.toNat_of_nonneg (by omega)

theorem degree_transposed {steps : StepCount} (h : w.Transposed q steps w') {e : TemplateEvent}
    (within : e.role = .walkStep → 1 ≤ e.stepIndex.getD 1 ∧ e.stepIndex.getD 1 ≤ steps.val) {s : String}
    (hs : w.degree e = .ok s) : ∃ s', w'.degree e = .ok s' ∧ Transposes q s s' := by
  unfold degree at hs ⊢
  cases role : e.role with
  | startAnchor =>
    rw [role] at hs
    obtain rfl := Except.ok.inj hs
    exact ⟨_, rfl, h.start⟩
  | targetAnchor =>
    rw [role] at hs
    obtain rfl := Except.ok.inj hs
    exact ⟨_, rfl, h.target⟩
  | approachTone =>
    simp only [role, h.direction, h.snaps.1, h.snaps.2] at hs ⊢
    exact h.target.approachTone hs
  | walkStep =>
    obtain ⟨low, high⟩ := within role
    obtain ⟨same_length, apart⟩ := List.forall₂_iff_get.mp h.notes
    have length := h.length
    have inside : (e.stepIndex.getD 1 - 1).toNat < w.notes.length := by omega
    have inside' : (e.stepIndex.getD 1 - 1).toNat < w'.notes.length := by omega
    have counted : 0 ≤ e.stepIndex.getD 1 - 1 := by omega
    simp only [role, itemAt?, counted, if_true, List.getElem?_eq_getElem inside,
      List.getElem?_eq_getElem inside'] at hs ⊢
    obtain rfl := Except.ok.inj hs
    exact ⟨_, rfl, apart _ inside inside'⟩

end WalkPlan

/-! ### References and riffs -/

/-- A reference that sounds as another one does, `q` semitones higher, where the chords are `q` semitones
higher. -/
def PitchRef.Rises (q : PitchClass) (r r' : PitchRef) : Prop :=
  ∀ x y : PitchContext, x.Transposed q y → ∀ p, r.resolve x = .ok p → r'.resolve y = .ok (p + q)

/-- A reference to the current or the next chord, or to one of its tones, and to no degree of the key. -/
def PitchRef.FollowsChords (r : PitchRef) : Prop :=
  r.basis = .chordTone ∨ (r.basis = .currentChord ∨ r.basis = .nextChord) ∧
    ∀ degree, r.degreeHint = some degree → isDegreeLabel degree = false

/-- Two riff events that differ in nothing but their references, one `q` semitones above the other. -/
structure RiffEvent.Rises (q : PitchClass) (e e' : RiffEvent) : Prop where
  startBeat : e'.startBeat = e.startBeat
  duration : e'.duration = e.duration
  octaveStrategy : e'.octaveStrategy = e.octaveStrategy
  pitchRef : e.pitchRef.Rises q e'.pitchRef

theorem PitchContext.Transposed.chordPitch? (h : x.Transposed q y) :
    (∃ p, x.chordPitch? x.currentChord = .ok (some p) ∧ y.chordPitch? y.currentChord = .ok (some (p + q))) ∧
    ∃ p, x.chordPitch? x.nextChord = .ok (some p) ∧ y.chordPitch? y.nextChord = .ok (some (p + q)) := by
  obtain ⟨s, s', hs, hs', apart⟩ := h.current
  obtain ⟨t, t', ht, ht', apart'⟩ := h.next
  obtain ⟨p, hp, hp'⟩ := apart.pitch
  obtain ⟨r, hr, hr'⟩ := apart'.pitch
  constructor
  · exact ⟨p, by rw [PitchContext.chordPitch?, hs]; exact congrArg (Except.map some) hp,
      by rw [PitchContext.chordPitch?, hs']; exact congrArg (Except.map some) hp'⟩
  · exact ⟨r, by rw [PitchContext.chordPitch?, ht]; exact congrArg (Except.map some) hr,
      by rw [PitchContext.chordPitch?, ht']; exact congrArg (Except.map some) hr'⟩

theorem PitchRef.FollowsChords.rises {r : PitchRef} (follows : r.FollowsChords) : r.Rises q r := by
  intro x y h p hp
  obtain ⟨⟨c, hc, hc'⟩, ⟨n, hn, hn'⟩⟩ := h.chordPitch?
  -- the base of the reference is moved by `q`, up to octaves, and the offset is added to it
  have raised (b b' : Int) (hb : r.base x = .ok b) (hb' : r.base y = .ok b')
      (up : PitchClass.ofInt (b' + r.offset) = PitchClass.ofInt (b + r.offset) + q) :
      r.resolve y = .ok (p + q) := by
    rw [PitchRef.resolve, hb] at hp
    obtain rfl := Except.ok.inj hp
    rw [PitchRef.resolve, hb', ← up]
    rfl
  rcases follows with tone | ⟨chord, hint⟩
  · refine raised (c.val + chordToneInterval (r.degreeHint.getD ""))
      ((c + q).val + chordToneInterval (r.degreeHint.getD "")) ?_ ?_ ?_
    · simp only [base, tone, hc, Except.map]
    · simp only [base, tone, hc', Except.map]
    · rw [add_assoc, add_assoc]
      exact PitchClass.ofInt_val_add c q _
  · have unhinted (z : PitchContext) (i : Int) : hintedPitch? r.degreeHint z i = z.chordPitch? i := by
      cases given : r.degreeHint with
      | none => rfl
      | some degree =>
        rw [hintedPitch?, hint degree given]
        rfl
    rcases chord with current | next
    · refine raised c.val (c + q).val ?_ ?_ (PitchClass.ofInt_val_add c q r.offset)
      · simp only [base, current, unhinted, hc, Except.map, Option.getD_some]
      · simp only [base, current, unhinted, hc', Except.map, Option.getD_some]
    · refine raised n.val (n + q).val ?_ ?_ (PitchClass.ofInt_val_add n q r.offset)
      · simp only [base, next, unhinted, hn, Except.map, Option.getD_some]
      · simp only [base, next, unhinted, hn', Except.map, Option.getD_some]

theorem Transposes.rises {s s' : String} (h : Transposes q s s') {basis : PitchBasis}
    (chord : basis = .currentChord ∨ basis = .nextChord) :
    PitchRef.Rises q ⟨basis, 0, some s⟩ ⟨basis, 0, some s'⟩ := by
  intro x y _ p hp
  obtain ⟨r, hr, hr'⟩ := h.pitch
  rw [PitchRef.resolve_of_label chord h.label, hr] at hp
  rw [PitchRef.resolve_of_label chord h.label', hr', Except.ok.inj hp]

/-- The riff of a walk for transposed chords is the same riff, transposed. -/
theorem RichRule.walkRiff_transposed {r : RichRule} {params : WalkParameters} (free : r.WalksFreely params)
    (h : x.Transposed q y) {riff : Riff} (hriff : r.walkRiff params x = .ok riff) :
    ∃ riff', r.walkRiff params y = .ok riff' ∧ List.Forall₂ (RiffEvent.Rises q) riff.events riff'.events := by
  obtain ⟨w, events, length, hw, hevents, hlength, rfl⟩ := walkRiff_eq_ok.mp hriff
  obtain ⟨w', hw', apart⟩ := WalkPlan.make_transposed free h hw
  obtain ⟨events', hevents', related⟩ := mapM_rel_of_mem (S := RiffEvent.Rises q) (g := w'.event)
    (fun e he event hevent => by
      obtain ⟨s, start, hs, hstart, rfl⟩ := WalkPlan.event_eq_ok.mp hevent
      obtain ⟨s', hs', tones⟩ := WalkPlan.degree_transposed apart (free.steps e he) hs
      exact ⟨_, WalkPlan.event_eq_ok.mpr ⟨s', start, hs', hstart, rfl⟩, rfl, rfl, rfl,
        tones.rises (WalkPlan.basisOf_chord e)⟩)
    hevents
  exact ⟨_, walkRiff_eq_ok.mpr ⟨w', events', length, hw', hevents', hlength, rfl⟩, related⟩

end Ostinato
