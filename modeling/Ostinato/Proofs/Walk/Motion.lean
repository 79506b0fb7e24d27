import Ostinato.Proofs.Arrangement.WalkNotes
import Ostinato.Proofs.Walk.Transposed

/-!
# Motion of a walk

Before it is brought onto the scale, a walk never turns back: its steps travel further and further along
its direction, no further than its target, and the approach tone is the one a semitone before the target.
On the scale, each of these tones is kept or gives way to the scale tone a semitone below it.
-/

namespace Ostinato

open Success

/-! ### Distances -/

namespace Direction

variable (d : Direction) (start target : PitchClass)

/-- What is travelled along a direction, octaves apart. -/
theorem distance_move (n : Int) : (d.distance start (d.move start n) : Int) = n % 12 := by
  cases d with
  | up =>
    simp only [distance, move, PitchClass.ofInt, Fin.sub_def]
    omega
  | down =>
    simp only [distance, move, PitchClass.ofInt, Fin.sub_def]
    omega

theorem distance_move_of_lt {n : Int} (low : 0 ≤ n) (high : n < 12) :
    (d.distance start (d.move start n) : Int) = n := by
  rw [distance_move, Int.emod_eq_of_lt low high]

theorem distance_approachPitch : d.distance (approachPitch target d false) target = 1 := by
  revert target
  cases d <;> decide

end Direction

theorem walkDistance_eq_octave_iff (d : Direction) (start target : PitchClass) :
    walkDistance d start target = 12 ↔ start = target := by
  revert start target
  cases d <;> decide

/-- The shorter way is no longer than half an octave, unless it leads through a whole one. -/
theorem walkDistance_shorter (start target : PitchClass) :
    walkDistance (.shorter start target) start target ≤ 6 ∨
      walkDistance (.shorter start target) start target = 12 := by
  revert start target
  decide

/-! ### Steps -/

theorem evenTravel_lt_iff {distance steps i n : Nat} :
    evenTravel distance steps i < n ↔ 2 * distance * (i + 1) + (steps + 1) < 2 * n * (steps + 1) := by
  rw [evenTravel, Nat.div_lt_iff_lt_mul (by omega), Nat.mul_left_comm, ← Nat.mul_assoc 2 n]

theorem evenTravel_le_evenTravel {distance steps i j : Nat} (h : i ≤ j) :
    evenTravel distance steps i ≤ evenTravel distance steps j := by
  have further : 2 * distance * (i + 1) ≤ 2 * distance * (j + 1) := Nat.mul_le_mul_left _ (by omega)
  exact Nat.div_le_div_right (by omega)

theorem evenTravel_le {distance steps i : Nat} (h : i < steps) : evenTravel distance steps i ≤ distance := by
  have inside : 2 * distance * (i + 1) ≤ 2 * distance * (steps + 1) := Nat.mul_le_mul_left _ (by omega)
  have more : 2 * (distance + 1) * (steps + 1) = 2 * distance * (steps + 1) + 2 * (steps + 1) := by ring
  have before : evenTravel distance steps i < distance + 1 := by
    rw [evenTravel_lt_iff]
    omega
  omega

theorem evenTravel_lt_octave {distance steps i : Nat} (high : distance ≤ 12) (few : steps ≤ 5) (h : i < steps) :
    evenTravel distance steps i < 12 := by
  have inside : 2 * distance * (i + 1) ≤ 24 * steps := Nat.mul_le_mul (by omega) (by omega)
  rw [evenTravel_lt_iff]
  omega

/-- The steps of a walk travel further and further, and no further than the whole distance. Even on the
way through an octave none of them comes back to the start. -/
theorem travelled_spec {distance : Nat} (low : 1 ≤ distance) (high : distance ≤ 12) (steps : StepCount)
    {moves : List Int} (h : travelled distance steps.val = .ok moves) :
    moves.Pairwise (· ≤ ·) ∧ ∀ n ∈ moves, 0 ≤ n ∧ n ≤ distance ∧ n < 12 := by
  obtain rfl := Except.ok.inj (h.symm.trans (travelled_eq low high steps))
  have few : steps.val.toNat ≤ 5 := Int.toNat_le.mpr steps.property.2
  constructor
  · rw [List.pairwise_map]
    exact List.pairwise_lt_range.imp fun earlier => Int.ofNat_le.mpr (evenTravel_le_evenTravel earlier.le)
  · intro n hn
    obtain ⟨i, hi, rfl⟩ := List.mem_map.mp hn
    have inside := List.mem_range.mp hi
    have most : evenTravel distance steps.val.toNat i ≤ distance := evenTravel_le inside
    have short := evenTravel_lt_octave high few inside
    omega

theorem walkPitches_eq_ok {d : Direction} {start target : PitchClass} {steps : Int} {snaps : Bool}
    {tones : List PitchClass} : walkPitches d start target steps snaps = .ok tones ↔
      ∃ moves, travelled (walkDistance d start target) steps = .ok moves ∧
        tones = moves.map fun n => snapIf snaps (d.move start n) := by
  simp only [walkPitches, bind_eq_ok, pure_eq_ok]
  exact exists_congr fun _ => and_congr_right fun _ => eq_comm

/-- Tones that lead from one pitch towards another one and never turn back, and a tone to approach it. -/
structure SteadyLine (d : Direction) (start target : PitchClass) (tones : List PitchClass)
    (approach : PitchClass) : Prop where
  onwards : (tones.map (d.distance start)).Pairwise (· ≤ ·)
  within : ∀ tone ∈ tones, d.distance start tone ≤ walkDistance d start target
  approach : d.distance approach target = 1

theorem steadyLine_of_walkPitches {d : Direction} {start target : PitchClass} {steps : StepCount}
    {line : List PitchClass} (h : walkPitches d start target steps.val false = .ok line) :
    SteadyLine d start target line (approachPitch target d false) := by
  obtain ⟨moves, hmoves, rfl⟩ := walkPitches_eq_ok.mp h
  obtain ⟨low, high⟩ := walkDistance_bounds d start target
  obtain ⟨onwards, within⟩ := travelled_spec low high steps hmoves
  have travels : ∀ n ∈ moves, (d.distance start (d.move start n) : Int) = n := by
    intro n hn
    obtain ⟨positive, -, small⟩ := within n hn
    exact d.distance_move_of_lt start positive small
  refine ⟨?_, ?_, d.distance_approachPitch target⟩
  · rw [List.map_map, List.pairwise_map]
    refine onwards.imp_of_mem fun {m n} hm hn le => ?_
    have first := travels m hm
    have second := travels n hn
    simp only [snapIf, Function.comp_apply, Bool.false_eq_true, if_false]
    omega
  · intro tone htone
    obtain ⟨n, hn, rfl⟩ := List.mem_map.mp htone
    obtain ⟨-, le, -⟩ := within n hn
    have travelled := travels n hn
    simp only [snapIf, Bool.false_eq_true, if_false]
    omega

/-! ### On the scale -/

namespace PitchClass

/-- A scale tone in the place of a pitch: the pitch itself, or the tone a semitone below it. -/
def SettlesOn (p tone : PitchClass) : Prop := tone.IsScaleTone ∧ (tone = p ∨ tone + semitone = p)

theorem settlesOn_snap (p : PitchClass) : p.SettlesOn p.snap := by
  have near : ∀ p : PitchClass, p.snap = p ∨ p.snap + semitone = p := by decide
  exact ⟨isScaleTone_snap p, near p⟩

end PitchClass

theorem walkPitches_snapped {d : Direction} {start target : PitchClass} {steps : Int}
    {line tones : List PitchClass} (hline : walkPitches d start target steps false = .ok line)
    (htones : walkPitches d start target steps true = .ok tones) :
    List.Forall₂ PitchClass.SettlesOn line tones := by
  obtain ⟨moves, hmoves, rfl⟩ := walkPitches_eq_ok.mp hline
  obtain ⟨moves', hmoves', rfl⟩ := walkPitches_eq_ok.mp htones
  have same : moves = moves' := Except.ok.inj (hmoves.symm.trans hmoves')
  subst same
  rw [List.forall₂_map_left_iff, List.forall₂_map_right_iff, List.forall₂_same]
  intro n _
  simp only [snapIf, Bool.false_eq_true, if_false, if_true]
  exact PitchClass.settlesOn_snap (d.move start n)

theorem walkSteps_eq_ok {start target : String} {s t : PitchClass} (hs : degreePitch start = .ok s)
    (ht : degreePitch target = .ok t) {steps : Int} {d : Direction} {snaps : Bool} {notes : List String} :
    walkSteps start target steps d snaps = .ok notes ↔
      ∃ tones, walkPitches d s t steps snaps = .ok tones ∧ notes = tones.map (·.degree) := by
  simp only [walkSteps, hs, ht, bind_eq_ok, pure_eq_ok, Except.ok.injEq, exists_eq_left']
  exact exists_congr fun _ => and_congr_right fun _ => eq_comm

/-! ### Plans -/

/-- The pitches of the steps and of the approach tone of a walk. -/
structure WalkPlan.Sounds (w : WalkPlan) (tones : List PitchClass) (approach : PitchClass) : Prop where
  notes : List.Forall₂ (fun note tone => degreePitch note = .ok tone) w.notes tones
  approach : ∀ e : TemplateEvent, e.role = .approachTone →
    ∃ tone, w.degree e = .ok tone ∧ degreePitch tone = .ok approach

/-- The tones of a walk beside the steady line that they are taken from. -/
structure WalkPlan.Follows (w : WalkPlan) (start target : PitchClass) (line tones : List PitchClass)
    (before approach : PitchClass) : Prop where
  steady : SteadyLine w.direction start target line before
  free : w.snaps = false → tones = line ∧ approach = before
  settled : w.snaps = true → List.Forall₂ PitchClass.SettlesOn line tones ∧ before.SettlesOn approach

section Plans

variable {w : WalkPlan} {s t : PitchClass}

theorem WalkPlan.sounds_of_walkSteps (hs : degreePitch w.start = .ok s) (ht : degreePitch w.target = .ok t)
    (h : walkSteps w.start w.target w.steps w.direction w.snaps = .ok w.notes) :
    ∃ tones, walkPitches w.direction s t w.steps w.snaps = .ok tones ∧
      w.Sounds tones (approachPitch t w.direction w.snaps) := by
  obtain ⟨tones, htones, notes⟩ := (walkSteps_eq_ok hs ht).mp h
  refine ⟨tones, htones, ?_, fun e role => ⟨_, ?_, degreePitch_degree _⟩⟩
  · rw [notes, List.forall₂_map_left_iff, List.forall₂_same]
    exact fun tone _ => degreePitch_degree tone
  · simp only [degree, role, approachTone, ht]
    rfl

theorem WalkPlan.follows_of_walkPitches {steps : StepCount} {line tones : List PitchClass}
    (hline : walkPitches w.direction s t steps.val false = .ok line)
    (htones : walkPitches w.direction s t steps.val w.snaps = .ok tones) :
    w.Follows s t line tones (approachPitch t w.direction false) (approachPitch t w.direction w.snaps) where
  steady := steadyLine_of_walkPitches hline
  free unsnapped := by
    rw [unsnapped] at htones ⊢
    exact ⟨Except.ok.inj (htones.symm.trans hline), rfl⟩
  settled snapped := by
    rw [snapped] at htones ⊢
    refine ⟨walkPitches_snapped hline htones, ?_⟩
    simp only [approachPitch, snapIf, Bool.false_eq_true, if_false, if_true]
    exact PitchClass.settlesOn_snap _

theorem exists_walkPitches (d : Direction) (s t : PitchClass) (steps : StepCount) (snaps : Bool) :
    ∃ tones, walkPitches d s t steps.val snaps = .ok tones := by
  obtain ⟨notes, hnotes⟩ := exists_walkSteps (degreePitch_degree s) (degreePitch_degree t) steps d snaps
  obtain ⟨tones, htones, -⟩ := (walkSteps_eq_ok (degreePitch_degree s) (degreePitch_degree t)).mp hnotes
  exact ⟨tones, htones⟩

theorem WalkPlan.walkSteps_of_make {r : RichRule} {params : WalkParameters} {context : PitchContext}
    (h : make r params context = .ok w) :
    params.leading w.start w.target = .ok w.direction ∧
    walkSteps w.start w.target w.steps w.direction w.snaps = .ok w.notes ∧
    w.snaps = staysInScale (r.walkProfile params.genreProfile) (params.approach == .chromatic) := by
  obtain ⟨d, notes, hd, hnotes, rfl⟩ := make_eq_ok.mp h
  exact ⟨hd, hnotes, rfl⟩

/-- The way that parameters ask for; of its own accord no walk goes the longer way. -/
def WalkParameters.Way (params : WalkParameters) (d : Direction) (s t : PitchClass) : Prop :=
  match params.direction with
  | .up => d = .up
  | .down => d = .down
  | .auto => walkDistance d s t ≤ 6 ∨ walkDistance d s t = 12

theorem WalkParameters.way_of_leading {params : WalkParameters} {start target : String} {d : Direction}
    (hs : degreePitch start = .ok s) (ht : degreePitch target = .ok t)
    (h : params.leading start target = .ok d) : params.Way d s t := by
  unfold Way
  unfold leading at h
  cases way : params.direction with
  | up =>
    rw [way] at h
    exact (Except.ok.inj h).symm
  | down =>
    rw [way] at h
    exact (Except.ok.inj h).symm
  | auto =>
    simp only [way, chooseDirection, hs, ht, bind_eq_ok, pure_eq_ok, Except.ok.injEq,
      exists_eq_left'] at h
    rw [← h]
    exact walkDistance_shorter s t

/-- A walk is worked out for any chords and moves steadily from the one to the other. Its own tones are
those of a steady line, each of them brought onto the scale where the walk stays in it. -/
theorem WalkPlan.moves_steadily (r : RichRule) (params : WalkParameters) (p : Progression)
    (current next : Int) :
    let context : PitchContext := ⟨.ofProgression p, current, next⟩
    ∃ w s t line tones before approach, make r params context = .ok w ∧
      degreePitch (anchorDegree context.timeline current) = .ok s ∧
      degreePitch (anchorDegree context.timeline (params.targetChord context)) = .ok t ∧
      params.Way w.direction s t ∧ (walkDistance w.direction s t = 12 ↔ s = t) ∧
      w.snaps = staysInScale (r.walkProfile params.genreProfile) (params.approach == .chromatic) ∧
      w.Sounds tones approach ∧ (tones.length : Int) = params.steps.val ∧
      walkPitches w.direction s t params.steps.val false = .ok line ∧
      before = approachPitch t w.direction false ∧ w.Follows s t line tones before approach := by
  intro context
  have sounding : ∀ i, ∃ x, degreePitch (anchorDegree context.timeline i) = .ok x :=
    exists_degreePitch_anchorDegree p
  obtain ⟨w, hw⟩ := exists_make r params sounding
  obtain ⟨start, target, steps, -⟩ := make_spec hw
  obtain ⟨leading, hnotes, snaps⟩ := walkSteps_of_make hw
  obtain ⟨s, hs⟩ := sounding current
  obtain ⟨t, ht⟩ := sounding (params.targetChord context)
  have from_start : degreePitch w.start = .ok s := by rw [start, hs]
  have to_target : degreePitch w.target = .ok t := by rw [target, ht]
  obtain ⟨tones, htones, sounds⟩ := sounds_of_walkSteps from_start to_target hnotes
  obtain ⟨line, hline⟩ := exists_walkPitches w.direction s t params.steps false
  rw [steps] at htones
  have count : (tones.length : Int) = params.steps.val := by
    rw [length_walkPitches htones]
    have least := params.steps.property.1
    exact Int.toNat_of_nonneg (by omega)
  exact ⟨w, s, t, line, tones, _, _, hw, hs, ht, WalkParameters.way_of_leading from_start to_target leading,
    walkDistance_eq_octave_iff w.direction s t, snaps, sounds, count, hline, rfl,
    follows_of_walkPitches hline htones⟩

end Plans

end Ostinato
