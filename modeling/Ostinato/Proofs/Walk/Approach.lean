import Ostinato.Proofs.Walk.Motion

/-!
# Room for the approach tone

The approach tone is a whole semitone before the target, and a step is rounded to a whole semitone. So a
step stays behind the approach tone exactly if more than half a semitone is left after it; otherwise it is
the target already.
-/

namespace Ostinato

open Success

/-- More than half a semitone is left after a step, counted from zero. -/
def LeavesRoom (distance steps : Int) (i : Nat) : Prop := steps + 1 < 2 * distance * (steps - i)

instance (distance steps : Int) (i : Nat) : Decidable (LeavesRoom distance steps i) :=
  inferInstanceAs (Decidable (_ < _))

theorem leavesRoom_of_last {distance steps : Int} (low : 0 ≤ distance) (last : steps + 1 < 2 * distance)
    {i : Nat} (hi : i < steps) : LeavesRoom distance steps i := by
  have further : 2 * distance * 1 ≤ 2 * distance * (steps - i) :=
    Int.mul_le_mul_of_nonneg_left (by omega) (by omega)
  unfold LeavesRoom
  omega

theorem evenTravel_lt_iff_leavesRoom {distance steps i : Nat} (h : i < steps) :
    evenTravel distance steps i < distance ↔ LeavesRoom distance steps i := by
  obtain ⟨left, rfl⟩ : ∃ left, steps = i + left := ⟨steps - i, by omega⟩
  have whole : 2 * distance * (i + left + 1) = 2 * distance * (i + 1) + 2 * distance * left := by ring
  have rest : (2 * (distance : Int)) * ((i + left : Nat) - i) = ((2 * distance * left : Nat) : Int) := by
    push_cast
    ring
  rw [evenTravel_lt_iff, LeavesRoom, rest]
  omega

theorem travelled_reach {distance : Nat} (low : 1 ≤ distance) (high : distance ≤ 12) (steps : StepCount)
    {moves : List Int} (h : travelled distance steps.val = .ok moves) {i : Nat} {n : Int}
    (hn : moves[i]? = some n) :
    (LeavesRoom distance steps.val i → n + 1 ≤ distance) ∧
      (¬ LeavesRoom distance steps.val i → n = distance) := by
  obtain rfl := Except.ok.inj (h.symm.trans (travelled_eq low high steps))
  rw [List.getElem?_map] at hn
  obtain ⟨j, hj, rfl⟩ := Option.map_eq_some_iff.mp hn
  have inside : i < steps.val.toNat := by simpa using (List.getElem?_eq_some_iff.mp hj).1
  obtain rfl := Option.some.inj ((List.getElem?_range inside).symm.trans hj)
  have least := steps.property.1
  have count : ((steps.val.toNat : Nat) : Int) = steps.val := Int.toNat_of_nonneg (by omega)
  have most : evenTravel distance steps.val.toNat i ≤ distance := evenTravel_le inside
  have room : evenTravel distance steps.val.toNat i < distance ↔ LeavesRoom distance steps.val i := by
    rw [evenTravel_lt_iff_leavesRoom inside, count]
  constructor
  · intro left
    have behind := room.mpr left
    omega
  · intro full
    have reached := mt room.mp full
    omega

theorem distance_of_walkDistance_lt {d : Direction} {s t : PitchClass} (h : walkDistance d s t < 12) :
    d.distance s t = walkDistance d s t := by
  unfold walkDistance at h ⊢
  dsimp only at h ⊢
  split_ifs at h ⊢ <;> omega

theorem Direction.move_walkDistance (d : Direction) (start target : PitchClass) :
    d.move start (walkDistance d start target) = target := by
  revert start target
  cases d <;> decide

theorem Direction.distance_start_approachPitch (d : Direction) (start target : PitchClass) :
    d.distance start (approachPitch target d false) + 1 = walkDistance d start target := by
  revert start target
  cases d <;> decide

/-- The steps of a walk that is free of the scale, one by one: those that leave room stay behind the
approach tone, the others are the target. -/
theorem tone_of_walkPitches {d : Direction} {s t : PitchClass} {steps : StepCount} {tones : List PitchClass}
    (h : walkPitches d s t steps.val false = .ok tones) {i : Nat} {tone : PitchClass}
    (htone : tones[i]? = some tone) :
    (LeavesRoom (walkDistance d s t) steps.val i →
      d.distance s tone ≤ d.distance s (approachPitch t d false)) ∧
    (¬ LeavesRoom (walkDistance d s t) steps.val i → tone = t) := by
  obtain ⟨moves, hmoves, rfl⟩ := walkPitches_eq_ok.mp h
  rw [List.getElem?_map] at htone
  obtain ⟨n, hn, rfl⟩ := Option.map_eq_some_iff.mp htone
  obtain ⟨low, high⟩ := walkDistance_bounds d s t
  obtain ⟨short, reached⟩ := travelled_reach low high steps hmoves hn
  obtain ⟨positive, -, small⟩ := (travelled_spec low high steps hmoves).2 n (List.mem_of_getElem? hn)
  have came := d.distance_move_of_lt s positive small
  have before := d.distance_start_approachPitch s t
  simp only [snapIf, Bool.false_eq_true, if_false]
  constructor
  · intro room
    have behind := short room
    omega
  · intro full
    rw [reached full]
    exact d.move_walkDistance s t

/-- The steps of a walk leave room for its approach tone exactly if the walk is longer than half a
semitone for each of them and for the approach tone. -/
theorem walkSteps_room {start target : String} {s t : PitchClass} (hs : degreePitch start = .ok s)
    (ht : degreePitch target = .ok t) (steps : StepCount) (d : Direction) :
    ∃ notes tones, walkSteps start target steps.val d false = .ok notes ∧
      List.Forall₂ (fun note tone => degreePitch note = .ok tone) notes tones ∧
      (tones.length : Int) = steps.val ∧
      d.distance s (approachPitch t d false) + 1 = walkDistance d s t ∧
      (∀ (i : Nat) (tone : PitchClass), tones[i]? = some tone →
        (LeavesRoom (walkDistance d s t) steps.val i →
          d.distance s tone ≤ d.distance s (approachPitch t d false)) ∧
        (¬ LeavesRoom (walkDistance d s t) steps.val i → tone = t)) ∧
      ((∀ tone ∈ tones, d.distance s tone ≤ d.distance s (approachPitch t d false)) ↔
        steps.val + 1 < 2 * walkDistance d s t) := by
  obtain ⟨tones, htones⟩ := exists_walkPitches d s t steps false
  have count := length_walkPitches htones
  have least := steps.property.1
  have notes := (walkSteps_eq_ok hs ht).mpr ⟨tones, htones, rfl⟩
  have before := d.distance_start_approachPitch s t
  refine ⟨_, tones, notes, ?_, by omega, before, fun i tone => tone_of_walkPitches htones, ?_, ?_⟩
  · rw [List.forall₂_map_left_iff, List.forall₂_same]
    exact fun tone _ => degreePitch_degree tone
  · intro behind
    by_contra full
    obtain ⟨tone, hlast⟩ : ∃ tone, tones[tones.length - 1]? = some tone :=
      ⟨_, List.getElem?_eq_getElem (by omega)⟩
    have target : tone = t := by
      refine (tone_of_walkPitches htones hlast).2 fun room => full ?_
      unfold LeavesRoom at room
      rw [show steps.val - ((tones.length - 1 : Nat) : Int) = 1 by omega, mul_one] at room
      exact room
    have reached := behind tone (List.mem_of_getElem? hlast)
    have most := steps.property.2
    have whole := distance_of_walkDistance_lt (d := d) (s := s) (t := t) (by omega)
    rw [target] at reached
    omega
  · intro room tone htone
    obtain ⟨i, hi⟩ := List.getElem?_of_mem htone
    have inside := (List.getElem?_eq_some_iff.mp hi).1
    exact (tone_of_walkPitches htones hi).1 (leavesRoom_of_last (by omega) room (by omega))

theorem two_steps_leave_room : degreePitch "I" = .ok 0 ∧ degreePitch "IV" = .ok 5 ∧
    ∃ notes tones, walkSteps "I" "IV" 2 .up false = .ok notes ∧
      List.Forall₂ (fun note tone => degreePitch note = .ok tone) notes tones ∧
      ∀ tone ∈ tones, Direction.up.distance 0 tone ≤ Direction.up.distance 0 (approachPitch 5 .up false) := by
  have first : degreePitch "I" = .ok 0 := by decide +kernel
  have fourth : degreePitch "IV" = .ok 5 := by decide +kernel
  obtain ⟨notes, tones, hnotes, sounding, -, -, -, room⟩ :=
    walkSteps_room first fourth ⟨2, by decide⟩ .up
  exact ⟨first, fourth, notes, tones, hnotes, sounding, room.mpr (by decide)⟩

/-- From a third to the fourth there is but a semitone, and the one step takes it whole. -/
theorem third_reaches_fourth : degreePitch "III" = .ok 4 ∧ degreePitch "IV" = .ok 5 ∧
    walkDistance .up 4 5 = 1 ∧ walkSteps "III" "IV" 1 .up false = .ok ["IV"] ∧
    ¬ Direction.up.distance 4 5 ≤ Direction.up.distance 4 (approachPitch 5 .up false) := by
  decide +kernel

end Ostinato
