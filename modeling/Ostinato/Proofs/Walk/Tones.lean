import Ostinato.Proofs.Harmony.DegreeLabel
import Ostinato.Proofs.Number.Range
import Ostinato.Proofs.Success
import Ostinato.Walk

/-!
# Tones of a walk

A walk starts and ends on the degrees of chords, and the tones between are degrees of pitches. As hints
of pitch references these are read back as the pitches that they were written for, in any context.
-/

namespace Ostinato

open Success

/-! ### Degrees as hints -/

theorem PitchClass.ofInt_val (p : PitchClass) : ofInt p.val = p := by
  revert p
  decide

/-- A hint that is a label is the pitch, whatever chord sounds. -/
theorem PitchRef.resolve_of_label {basis : PitchBasis} {degree : String}
    (hbasis : basis = .currentChord ∨ basis = .nextChord) (label : isDegreeLabel degree = true)
    (context : PitchContext) : resolve ⟨basis, 0, some degree⟩ context = degreePitch degree := by
  have hinted (i : Int) : hintedPitch? (some degree) context i = (degreePitch degree).map some :=
    if_pos label
  have based : base ⟨basis, 0, some degree⟩ context = (degreePitch degree).map fun p => (p.val : Int) := by
    rcases hbasis with rfl | rfl
    · simp only [base, hinted]
      cases degreePitch degree <;> rfl
    · simp only [base, hinted]
      cases degreePitch degree <;> rfl
  rw [resolve, based]
  cases degreePitch degree with
  | error f => rfl
  | ok p => simp [Except.map, PitchClass.ofInt_val]

/-! ### Tones between the anchors -/

theorem degree_of_mem_walkSteps {start target : String} {steps : Int} {d : Direction} {snaps : Bool}
    {notes : List String} (h : walkSteps start target steps d snaps = .ok notes) {s : String}
    (hs : s ∈ notes) : ∃ p : PitchClass, s = p.degree := by
  simp only [walkSteps, bind_eq_ok, pure_eq_ok] at h
  obtain ⟨-, -, -, -, pitches, -, rfl⟩ := h
  obtain ⟨p, -, rfl⟩ := List.mem_map.mp hs
  exact ⟨p, rfl⟩

theorem walkDistance_bounds (d : Direction) (start target : PitchClass) :
    1 ≤ walkDistance d start target ∧ walkDistance d start target ≤ 12 := by
  have short : d.distance start target < 12 := by
    cases d with
    | up => exact (target - start).isLt
    | down => exact (start - target).isLt
  unfold walkDistance
  dsimp only
  split_ifs <;> omega

/-- The semitones up to a step when the distance is divided evenly among the steps and the approach tone,
rounded to the nearest whole one. -/
def evenTravel (distance steps i : Nat) : Nat := (2 * distance * (i + 1) + (steps + 1)) / (2 * (steps + 1))

/-- The rounded divisions lose nothing: each step is where the exact part of the distance is rounded to. -/
theorem travelled_eq {distance : Nat} (low : 1 ≤ distance) (high : distance ≤ 12) (steps : StepCount) :
    travelled distance steps.val = .ok ((List.range steps.val.toNat).map fun i =>
      (evenTravel distance steps.val.toNat i : Int)) := by
  -- only sixty cases can arise, so the divisions are carried out for each of them
  have table : ∀ n < 12, ∀ k < 5, (travelled (n + 1) ((k + 1 : Nat) : Int)).toOption =
      some ((List.range (k + 1)).map fun i => (evenTravel (n + 1) (k + 1) i : Int)) := by
    decide +kernel
  obtain ⟨k, least, most⟩ := steps
  have found := table (distance - 1) (by omega) (k - 1).toNat (by omega)
  have count : (k - 1).toNat + 1 = k.toNat := by omega
  rw [Nat.sub_add_cancel low, count, Int.toNat_of_nonneg (by omega)] at found
  exact ok_of_toOption found

theorem exists_walkSteps {start target : String} {p q : PitchClass} (hstart : degreePitch start = .ok p)
    (htarget : degreePitch target = .ok q) (steps : StepCount) (d : Direction) (snaps : Bool) :
    ∃ notes, walkSteps start target steps.val d snaps = .ok notes := by
  obtain ⟨low, high⟩ := walkDistance_bounds d p q
  obtain ⟨moves, hmoves⟩ : ∃ moves, travelled (walkDistance d p q) steps.val = .ok moves :=
    ⟨_, travelled_eq low high steps⟩
  have pitches : walkPitches d p q steps.val snaps =
      .ok (moves.map fun n => snapIf snaps (d.move p n)) := by
    rw [walkPitches, hmoves]
    rfl
  refine ⟨(moves.map fun n => snapIf snaps (d.move p n)).map (·.degree), ?_⟩
  rw [walkSteps, hstart, htarget]
  exact congrArg (fun ps => ps >>= fun ps => pure (ps.map (·.degree))) pitches

theorem exists_interpolatedPitch (start target : PitchClass) {index steps : Int} {k : Nat}
    (hk : k ≤ 1000) (positive : 0 ≤ steps) (bound : (index + 1).natAbs ≤ 2 ^ k) :
    ∃ p, interpolatedPitch start target index steps = .ok p := by
  -- the exact result of each operation is bounded, so that none of the rounded ones overflows
  have start_le : |((start.val : Int) : ℚ)| ≤ 2 ^ 4 := Binary64.abs_intCast_le (by omega)
  have rise_le : |(((target.val : Int) - start.val : Int) : ℚ)| ≤ 2 ^ 4 :=
    Binary64.abs_intCast_le (by omega)
  obtain ⟨progress, x, hprogress, hx, x_le⟩ := Binary64.exists_quotient (d := steps + 1)
    (show k < 1024 by omega) (by omega) bound
  obtain ⟨y, hy, y_le⟩ := Binary64.toRat?_ofRat_of_abs_le (by norm_num) rise_le
  have product_le : |y * x| ≤ 2 ^ (k + 4) := by
    rw [abs_mul, pow_add, mul_comm]
    exact mul_le_mul x_le y_le (abs_nonneg _) (by positivity)
  obtain ⟨z, hz, z_le⟩ := Binary64.toRat?_mul_of_abs_le (by omega) hy hx product_le
  obtain ⟨w, hw, w_le⟩ := Binary64.toRat?_ofRat_of_abs_le (by norm_num) start_le
  have sum_le : |w + z| ≤ 2 ^ (k + 5) := by
    have small : (2 : ℚ) ^ 4 ≤ 2 ^ (k + 4) := pow_le_pow_right₀ (by norm_num) (by omega)
    calc |w + z| ≤ |w| + |z| := abs_add_le _ _
      _ ≤ 2 ^ (k + 4) + 2 ^ (k + 4) := add_le_add (w_le.trans small) z_le
      _ = 2 ^ (k + 5) := by ring
  obtain ⟨v, hv, v_le⟩ := Binary64.toRat?_add_of_abs_le (by omega) hw hz sum_le
  obtain ⟨n, hn⟩ := Binary64.exists_roundHalfUp (by omega) hv v_le
  refine ⟨.ofInt n, ?_⟩
  simp only [interpolatedPitch, hprogress, bind_eq_ok, pure_eq_ok]
  exact ⟨progress, rfl, n, hn, rfl⟩

/-! ### Anchors -/

/-- What holds of the first degree and of the degrees of all chords holds of each anchor. -/
theorem forall_anchorDegree {P : String → Prop} {t : Timeline} (first : P "I")
    (chords : ∀ b ∈ t.boundaries, P b.chordDegree) (i : Int) : P (anchorDegree t i) := by
  unfold anchorDegree Timeline.chordDegree? itemAt?
  split
  · rename_i degree h
    obtain ⟨b, hb, rfl⟩ := Option.map_eq_some_iff.mp h
    split_ifs at hb with inside
    split_ifs
    · exact first
    · exact chords b (List.mem_of_getElem? hb)
  · exact first

/-! ### Plans -/

theorem Checked.orReject_under_eq_ok {α : Type} {x : Checked α} {step : Step} {title : String} {a : α} :
    (x.under step).orReject title = .ok a ↔ x = .ok a := by
  rw [Checked.orReject_eq_ok, Checked.under_eq_ok]

namespace WalkParameters

/-- The chord that a walk leads to. -/
def targetChord (p : WalkParameters) (context : PitchContext) : Int :=
  match p.target with
  | .nextChordRoot => context.nextChord
  | .currentChordRoot => context.currentChord

/-- The direction of a walk between two degrees. -/
def leading (p : WalkParameters) (start target : String) : Except NumberFault Direction :=
  match p.direction with
  | .up => .ok .up
  | .down => .ok .down
  | .auto => chooseDirection start target

end WalkParameters

namespace WalkPlan

variable {r : RichRule} {p : WalkParameters} {context : PitchContext} {w : WalkPlan} {e : TemplateEvent}

theorem make_eq (r : RichRule) (p : WalkParameters) (context : PitchContext) : make r p context = (do
    let start := anchorDegree context.timeline context.currentChord
    let target := anchorDegree context.timeline (p.targetChord context)
    let snaps := staysInScale (r.walkProfile p.genreProfile) (p.approach == .chromatic)
    let d ← p.leading start target
    let notes ← walkSteps start target p.steps.val d snaps
    return ⟨start, target, d, p.steps.val, snaps, notes⟩) := by
  unfold make WalkParameters.leading WalkParameters.targetChord
  cases p.direction <;> cases p.target <;> rfl

theorem make_eq_ok : make r p context = .ok w ↔ ∃ d notes,
    let start := anchorDegree context.timeline context.currentChord
    let target := anchorDegree context.timeline (p.targetChord context)
    let snaps := staysInScale (r.walkProfile p.genreProfile) (p.approach == .chromatic)
    p.leading start target = .ok d ∧ walkSteps start target p.steps.val d snaps = .ok notes ∧
      w = ⟨start, target, d, p.steps.val, snaps, notes⟩ := by
  simp only [make_eq, bind_eq_ok, pure_eq_ok]
  constructor
  · rintro ⟨d, hd, notes, hnotes, rfl⟩
    exact ⟨d, notes, hd, hnotes, rfl⟩
  · rintro ⟨d, notes, hd, hnotes, rfl⟩
    exact ⟨d, hd, notes, hnotes, rfl⟩

theorem make_spec (h : make r p context = .ok w) :
    w.start = anchorDegree context.timeline context.currentChord ∧
    w.target = anchorDegree context.timeline (p.targetChord context) ∧ w.steps = p.steps.val ∧
    ∀ s ∈ w.notes, ∃ q : PitchClass, s = q.degree := by
  obtain ⟨d, notes, -, hnotes, rfl⟩ := make_eq_ok.mp h
  exact ⟨rfl, rfl, rfl, fun s hs => degree_of_mem_walkSteps hnotes hs⟩

/-- Each tone of a walk is an anchor or the degree of a pitch. -/
theorem degree_spec (h : make r p context = .ok w) {s : String} (hs : w.degree e = .ok s) :
    (∃ i, s = anchorDegree context.timeline i) ∨ ∃ q : PitchClass, s = q.degree := by
  obtain ⟨start, target, -, notes⟩ := make_spec h
  unfold degree at hs
  split at hs
  · exact .inl ⟨_, (Except.ok.inj hs).symm.trans start⟩
  · exact .inl ⟨_, (Except.ok.inj hs).symm.trans target⟩
  · simp only [approachTone, bind_eq_ok, pure_eq_ok] at hs
    obtain ⟨q, -, rfl⟩ := hs
    exact .inr ⟨_, rfl⟩
  · dsimp only at hs
    split at hs
    · rename_i note hnote
      obtain rfl := Except.ok.inj hs
      unfold itemAt? at hnote
      split_ifs at hnote
      exact .inr (notes _ (List.mem_of_getElem? hnote))
    · simp only [interpolateStep, bind_eq_ok, pure_eq_ok] at hs
      obtain ⟨-, -, -, -, q, -, rfl⟩ := hs
      exact .inr ⟨q, rfl⟩

theorem exists_make (r : RichRule) (p : WalkParameters)
    (sounding : ∀ i, ∃ q, degreePitch (anchorDegree context.timeline i) = .ok q) :
    ∃ w, make r p context = .ok w := by
  obtain ⟨start, hstart⟩ := sounding context.currentChord
  obtain ⟨target, htarget⟩ := sounding (p.targetChord context)
  obtain ⟨d, hd⟩ : ∃ d, p.leading (anchorDegree context.timeline context.currentChord)
      (anchorDegree context.timeline (p.targetChord context)) = .ok d := by
    unfold WalkParameters.leading
    cases p.direction with
    | up => exact ⟨_, rfl⟩
    | down => exact ⟨_, rfl⟩
    | auto =>
      refine ⟨Direction.shorter start target, ?_⟩
      simp only [chooseDirection, bind_eq_ok, pure_eq_ok]
      exact ⟨start, hstart, target, htarget, rfl⟩
  obtain ⟨notes, hnotes⟩ := exists_walkSteps hstart htarget p.steps d
    (staysInScale (r.walkProfile p.genreProfile) (p.approach == .chromatic))
  exact ⟨_, make_eq_ok.mpr ⟨d, notes, hd, hnotes, rfl⟩⟩

theorem exists_degree (h : make r p context = .ok w)
    (sounding : ∀ i, ∃ q, degreePitch (anchorDegree context.timeline i) = .ok q) {k : Nat} (hk : k ≤ 1000)
    (bound : (e.stepIndex.getD 1).natAbs ≤ 2 ^ k) : ∃ s, w.degree e = .ok s := by
  obtain ⟨start, target, steps, -⟩ := make_spec h
  obtain ⟨a, ha⟩ := sounding context.currentChord
  obtain ⟨b, hb⟩ := sounding (p.targetChord context)
  rw [← start] at ha
  rw [← target] at hb
  unfold degree
  split
  · exact ⟨_, rfl⟩
  · exact ⟨_, rfl⟩
  · rw [approachTone, hb]
    exact ⟨_, rfl⟩
  · dsimp only
    split
    · exact ⟨_, rfl⟩
    · have least := p.steps.property.1
      have index : (e.stepIndex.getD 1 - 1 + 1).natAbs ≤ 2 ^ k := by rwa [Int.sub_add_cancel]
      obtain ⟨q, hq⟩ := exists_interpolatedPitch a b hk (show 0 ≤ w.steps by omega) index
      refine ⟨q.degree, ?_⟩
      simp only [interpolateStep, bind_eq_ok, pure_eq_ok]
      exact ⟨a, ha, b, hb, q, hq, rfl⟩

/-- The chord that a tone of a walk counts from when its hint is not read. -/
def basisOf (e : TemplateEvent) : PitchBasis :=
  if e.noteSource = some "targetChordRoot" then .nextChord else .currentChord

theorem basisOf_chord (e : TemplateEvent) : basisOf e = .currentChord ∨ basisOf e = .nextChord := by
  unfold basisOf
  split
  · exact .inr rfl
  · exact .inl rfl

theorem event_eq_ok {event : RiffEvent} :
    w.event e = .ok event ↔ ∃ s start, w.degree e = .ok s ∧
      (Codec.realFrom 1).decode (.int (beatOf e)) = .ok start ∧
      event = ⟨start, Duration.beat, ⟨basisOf e, 0, some s⟩, none⟩ := by
  simp only [WalkPlan.event, bind_eq_ok, pure_eq_ok, Failure.ofNumber_eq_ok, Failure.ofRecord_eq_ok,
    Checked.orReject_under_eq_ok]
  constructor
  · rintro ⟨s, hs, start, hstart, rfl⟩
    exact ⟨s, start, hs, hstart, rfl⟩
  · rintro ⟨s, start, hs, hstart, rfl⟩
    exact ⟨s, hs, start, hstart, rfl⟩

end WalkPlan

/-! ### Riffs of walks -/

theorem RichRule.walkRiff_eq_ok {r : RichRule} {p : WalkParameters} {context : PitchContext} {riff : Riff} :
    r.walkRiff p context = .ok riff ↔ ∃ w events length, WalkPlan.make r p context = .ok w ∧
      r.templateEvents.mapM w.event = .ok events ∧
      (Codec.realAbove 0).decode (.int r.walkLength) = .ok length ∧
      riff = ⟨r.id ++ "_resolved", length, events, s!"Walk from {w.start} to {w.target} using {w.steps} steps "
        ++ s!"({w.direction.word}, {p.register} register)"⟩ := by
  simp only [walkRiff, bind_eq_ok, pure_eq_ok, Failure.ofNumber_eq_ok, Failure.ofRecord_eq_ok,
    Checked.orReject_under_eq_ok]
  constructor
  · rintro ⟨w, hw, events, hevents, length, hlength, rfl⟩
    exact ⟨w, events, length, hw, hevents, hlength, rfl⟩
  · rintro ⟨w, events, length, hw, hevents, hlength, rfl⟩
    exact ⟨w, hw, events, hevents, length, hlength, rfl⟩

end Ostinato
