import Ostinato.Proofs.Number.Order
import Ostinato.Proofs.Walk.Motion

/-!
# Steps beyond the generated ones

A step that was not generated is put on the line from start to target. The first such step falls on the
target and all others come after it, so that the line is drawn beyond its end: their tones lie at the target
or past it, and between the anchors only where they are rounded to the target or have passed it by octaves.
-/

namespace Ostinato

open Success

/-! ### Numbers on the line -/

open Binary64 Rounding

/-- The number of semitones above the key root on the line from one pitch to another. -/
def lineNumber (start target : PitchClass) (index steps : Int) : Except NumberFault Int := do
  let progress ← Binary64.quotient (index + 1) (steps + 1)
  let rise := (Binary64.ofInt ((target.val : Int) - start.val)).mul progress
  ((Binary64.ofInt start.val).add rise).roundHalfUp

theorem interpolatedPitch_eq_ok {start target tone : PitchClass} {index steps : Int} :
    interpolatedPitch start target index steps = .ok tone ↔
      ∃ n, lineNumber start target index steps = .ok n ∧ tone = .ofInt n := by
  simp only [interpolatedPitch, lineNumber, bind_eq_ok, pure_eq_ok]
  constructor
  · rintro ⟨progress, hp, n, hn, rfl⟩
    exact ⟨n, ⟨progress, hp, hn⟩, rfl⟩
  · rintro ⟨n, ⟨progress, hp, hn⟩, rfl⟩
    exact ⟨progress, hp, n, hn, rfl⟩

theorem toRat?_ofInt_of_small {n : Int} (h : n.natAbs ≤ 16) : (Binary64.ofInt n).toRat? = some (n : ℚ) := by
  have sixteenths : (n : ℚ) = ((16 * n : Int) : ℚ) / 16 := by
    push_cast
    ring
  refine toRat?_ofRat_of_onGrid (k := 4) (by norm_num) ?_ (abs_intCast_le (by omega))
  rw [sixteenths]
  exact onGrid_sixteenths (by omega)

structure OnLine (start target : PitchClass) (progress rise : ℚ) (n : Int) : Prop where
  risen : (ofRat (((target.val : Int) - start.val : Int) * progress)).toRat? = some rise
  rounded : ∃ u v, (ofRat (start.val + rise)).toRat? = some u ∧ (ofRat (u + 1 / 2)).toRat? = some v ∧
    n = ⌊v⌋

theorem onLine_of_lineNumber {start target : PitchClass} {index steps n : Int}
    (h : lineNumber start target index steps = .ok n) :
    ∃ p z, (ofRat ((index + 1 : Int) / (steps + 1 : Int))).toRat? = some p ∧ OnLine start target p z n := by
  simp only [lineNumber, bind_eq_ok] at h
  obtain ⟨progress, hprogress, hn⟩ := h
  obtain ⟨p, hp, hquotient⟩ := quotient_eq_ok hprogress
  obtain ⟨u, v, hu, hv, rfl⟩ := roundHalfUp_eq_ok hn
  obtain ⟨-, z, -, hz⟩ := exists_of_toRat?_add hu
  have start_value := toRat?_ofInt_of_small (n := start.val) (by omega)
  have distance_value := toRat?_ofInt_of_small (n := (target.val : Int) - start.val) (by omega)
  rw [toRat?_add start_value hz] at hu
  rw [toRat?_mul distance_value hp] at hz
  exact ⟨p, z, hquotient, hz, u, v, by simpa using hu, hv, rfl⟩

section Bounds

variable {s t : PitchClass} {p z : ℚ} {n j : Int}

theorem floor_sixteenths (a : Int) : ⌊(a : ℚ) / 16⌋ = a / 16 := by
  exact_mod_cast Rat.floor_intCast_div_natCast a 16

theorem OnLine.le_number (line : OnLine s t p z n) (small : j.natAbs ≤ 1000) (le : (j : ℚ) / 16 ≤ z) :
    (16 * s.val + j + 8) / 16 ≤ n := by
  obtain ⟨u, v, hu, hv, rfl⟩ := line.rounded
  have sum : ((16 * s.val + j : Int) : ℚ) / 16 ≤ u := by
    refine le_of_ofRat hu (onGrid_sixteenths (by omega)) ?_
    push_cast
    linarith
  have half : ((16 * s.val + j + 8 : Int) : ℚ) / 16 ≤ v := by
    refine le_of_ofRat hv (onGrid_sixteenths (by omega)) ?_
    push_cast at sum ⊢
    linarith
  rw [← floor_sixteenths]
  exact Int.floor_le_floor half

theorem OnLine.number_le (line : OnLine s t p z n) (small : j.natAbs ≤ 1000) (le : z ≤ (j : ℚ) / 16) :
    n ≤ (16 * s.val + j + 8) / 16 := by
  obtain ⟨u, v, hu, hv, rfl⟩ := line.rounded
  have sum : u ≤ ((16 * s.val + j : Int) : ℚ) / 16 := by
    refine ofRat_le_of hu (onGrid_sixteenths (by omega)) ?_
    push_cast
    linarith
  have half : v ≤ ((16 * s.val + j + 8 : Int) : ℚ) / 16 := by
    refine ofRat_le_of hv (onGrid_sixteenths (by omega)) ?_
    push_cast at sum ⊢
    linarith
  rw [← floor_sixteenths]
  exact Int.floor_le_floor half

theorem OnLine.le_rise (line : OnLine s t p z n) (up : s.val ≤ t.val) (small : j.natAbs ≤ 40)
    (progress : (j : ℚ) / 16 ≤ p) : ((((t.val : Int) - s.val) * j : Int) : ℚ) / 16 ≤ z := by
  have bound : (((t.val : Int) - s.val) * j).natAbs ≤ 11 * 40 := by
    rw [Int.natAbs_mul]
    exact Nat.mul_le_mul (by omega) small
  have distance : (0 : ℚ) ≤ ((t.val : Int) - s.val : Int) := Int.cast_nonneg (by omega)
  refine le_of_ofRat line.risen (onGrid_sixteenths (by omega)) ?_
  calc ((((t.val : Int) - s.val) * j : Int) : ℚ) / 16
      = ((t.val : Int) - s.val : Int) * ((j : ℚ) / 16) := by push_cast; ring
    _ ≤ ((t.val : Int) - s.val : Int) * p := by gcongr

theorem OnLine.rise_le (line : OnLine s t p z n) (down : t.val ≤ s.val) (small : j.natAbs ≤ 40)
    (progress : (j : ℚ) / 16 ≤ p) : z ≤ ((((t.val : Int) - s.val) * j : Int) : ℚ) / 16 := by
  have bound : (((t.val : Int) - s.val) * j).natAbs ≤ 11 * 40 := by
    rw [Int.natAbs_mul]
    exact Nat.mul_le_mul (by omega) small
  have distance : (((t.val : Int) - s.val : Int) : ℚ) ≤ 0 := Int.cast_nonpos.mpr (by omega)
  refine ofRat_le_of line.risen (onGrid_sixteenths (by omega)) ?_
  calc ((t.val : Int) - s.val : Int) * p
      ≤ ((t.val : Int) - s.val : Int) * ((j : ℚ) / 16) := mul_le_mul_of_nonpos_left progress distance
    _ = ((((t.val : Int) - s.val) * j : Int) : ℚ) / 16 := by push_cast; ring

end Bounds

/-! ### Beyond the generated steps -/

/-- A line of `parts` equal parts is drawn on for `past` more of them, and the point reached is still rounded
to its end: it is less than half a semitone off, and on the way down it may be a half. -/
def StaysAtEnd (distance past parts : Int) : Prop :=
  if 0 ≤ distance then 2 * distance * past < parts else -(2 * distance * past) ≤ parts

instance (distance past parts : Int) : Decidable (StaysAtEnd distance past parts) :=
  inferInstanceAs (Decidable (ite ..))

def RisesAsTold (distance past parts : Int) (rise : ℚ) : Prop :=
  if 0 ≤ distance then
    (StaysAtEnd distance past parts → rise ≤ ((16 * distance + 7 : Int) : ℚ) / 16) ∧
      (¬ StaysAtEnd distance past parts → ((16 * distance + 8 : Int) : ℚ) / 16 ≤ rise)
  else
    (StaysAtEnd distance past parts → ((16 * distance - 8 : Int) : ℚ) / 16 ≤ rise) ∧
      (¬ StaysAtEnd distance past parts → rise ≤ ((16 * distance - 9 : Int) : ℚ) / 16)

instance (distance past parts : Int) (rise : ℚ) : Decidable (RisesAsTold distance past parts rise) :=
  inferInstanceAs (Decidable (ite ..))

-- the rounded rise keeps to its side of the half semitone, up to the sixteenths next to it
theorem rise_table : ∀ i < 5, ∀ past < 4, ∀ a < 23,
    ((ofRat (((i + 2 + past : Nat) : Int) / ((i + 2 : Nat) : Int))).toRat?.bind
      fun p => (ofRat (((a : Nat) - 11 : Int) * p)).toRat?).all
        (fun z => RisesAsTold ((a : Nat) - 11) (past : Nat) (i + 2 : Nat) z) = true := by
  decide +kernel

theorem risesAsTold {s t : PitchClass} {p z : ℚ} {n past parts : Int} (line : OnLine s t p z n)
    (near : 0 ≤ past ∧ past < 4) (count : 2 ≤ parts ∧ parts ≤ 6)
    (hp : (ofRat ((parts + past : Int) / (parts : Int))).toRat? = some p) :
    RisesAsTold ((t.val : Int) - s.val) past parts z := by
  have found := rise_table (parts - 2).toNat (by omega) past.toNat (by omega)
    ((t.val : Int) - s.val + 11).toNat (by omega)
  have whole : (((parts - 2).toNat + 2 : Nat) : Int) = parts := by omega
  have further : (((parts - 2).toNat + 2 + past.toNat : Nat) : Int) = parts + past := by omega
  have distance : ((((t.val : Int) - s.val + 11).toNat : Nat) : Int) - 11 = (t.val : Int) - s.val := by omega
  have beyond : ((past.toNat : Nat) : Int) = past := by omega
  rw [whole, further, distance, beyond, hp, Option.bind_some, line.risen, Option.all_some,
    decide_eq_true_eq] at found
  exact found

section Beyond

variable {s t : PitchClass} {p z : ℚ} {n past parts : Int}

theorem OnLine.target_le (line : OnLine s t p z n) (whole : 1 ≤ p) (up : s.val ≤ t.val) :
    (t.val : Int) ≤ n := by
  have reached := line.le_number (by omega)
    (line.le_rise (j := 16) up (by decide) (by norm_num; exact whole))
  omega

theorem OnLine.le_target (line : OnLine s t p z n) (whole : 1 ≤ p) (down : t.val ≤ s.val) :
    n ≤ t.val := by
  have reached := line.number_le (by omega)
    (line.rise_le (j := 16) down (by decide) (by norm_num; exact whole))
  omega

theorem OnLine.eq_target_iff_of_told (line : OnLine s t p z n) (whole : 1 ≤ p)
    (told : RisesAsTold ((t.val : Int) - s.val) past parts z) :
    n = t.val ↔ StaysAtEnd ((t.val : Int) - s.val) past parts := by
  unfold RisesAsTold at told
  split_ifs at told with side
  · have reached := line.target_le whole (by omega)
    constructor
    · intro same
      by_contra leaves
      have passed := line.le_number (by omega) (told.2 leaves)
      omega
    · intro stays
      have kept := line.number_le (by omega) (told.1 stays)
      omega
  · have reached := line.le_target whole (by omega)
    constructor
    · intro same
      by_contra leaves
      have passed := line.number_le (by omega) (told.2 leaves)
      omega
    · intro stays
      have kept := line.le_number (by omega) (told.1 stays)
      omega

theorem OnLine.eq_target_iff_of_far (line : OnLine s t p z n) (far : ((26 : Int) : ℚ) / 16 ≤ p)
    (beyond : 4 ≤ past) (few : 1 ≤ parts ∧ parts ≤ 6) :
    n = t.val ↔ StaysAtEnd ((t.val : Int) - s.val) past parts := by
  unfold StaysAtEnd
  rcases Nat.lt_trichotomy s.val t.val with up | level | down
  · have passed := line.le_number (by omega) (line.le_rise up.le (by decide) far)
    have long : 1 * 4 ≤ ((t.val : Int) - s.val) * past :=
      Int.mul_le_mul (by omega) beyond (by omega) (by omega)
    rw [if_pos (by omega), Int.mul_assoc]
    omega
  · have reached := line.le_number (by omega) (line.le_rise level.le (by decide) far)
    have kept := line.number_le (by omega) (line.rise_le level.ge (by decide) far)
    rw [if_pos (by omega), level, Int.sub_self, Int.mul_zero, Int.zero_mul]
    omega
  · have passed := line.number_le (by omega) (line.rise_le down.le (by decide) far)
    have long : 1 * 4 ≤ ((s.val : Int) - t.val) * past :=
      Int.mul_le_mul (by omega) beyond (by omega) (by omega)
    have turned : 2 * ((t.val : Int) - s.val) * past = -(2 * (((s.val : Int) - t.val) * past)) := by ring
    rw [if_neg (by omega), turned]
    omega

end Beyond

/-- A step beyond the generated ones lies at the target or past it; it is rounded to the target only as
long as it is less than half a semitone past it. -/
theorem lineNumber_spec {s t : PitchClass} {steps : StepCount} {k n : Int} (beyond : steps.val < k)
    (h : lineNumber s t (k - 1) steps.val = .ok n) :
    (s ≤ t → (t.val : Int) ≤ n) ∧ (t ≤ s → n ≤ t.val) ∧
      (n = t.val ↔ StaysAtEnd ((t.val : Int) - s.val) (k - (steps.val + 1)) (steps.val + 1)) := by
  obtain ⟨p, z, hp, line⟩ := onLine_of_lineNumber h
  obtain ⟨least, most⟩ := steps.property
  have parts_pos : (0 : ℚ) < (steps.val + 1 : Int) := Int.cast_pos.mpr (by omega)
  rw [Int.sub_add_cancel] at hp
  have reaches {j : Int} (small : j.natAbs < 2 ^ 53) (far : j * (steps.val + 1) ≤ 16 * k) :
      (j : ℚ) / 16 ≤ p := by
    refine le_of_ofRat hp (onGrid_sixteenths small) ?_
    rw [div_le_div_iff₀ (by norm_num) parts_pos]
    exact_mod_cast (by omega)
  have whole : 1 ≤ p := by
    have := reaches (j := 16) (by decide) (by omega)
    norm_num at this
    exact this
  refine ⟨line.target_le whole, line.le_target whole, ?_⟩
  -- four parts past the target more than half a semitone has passed on every line that is not level
  by_cases near : k - (steps.val + 1) < 4
  · have parts : steps.val + 1 + (k - (steps.val + 1)) = k := by omega
    refine line.eq_target_iff_of_told whole (risesAsTold line ⟨by omega, near⟩ (by omega) ?_)
    rw [parts]
    exact hp
  · exact line.eq_target_iff_of_far (reaches (by decide) (by omega)) (by omega) (by omega)

/-! ### Plans -/

/-- A tone on the line from `s` to `t`, `past` parts behind `t` where the line itself has `parts`. -/
structure FilledTone (s t : PitchClass) (past parts n : Int) (tone : PitchClass) : Prop where
  tone_eq : tone = .ofInt n
  risen : s ≤ t → (t.val : Int) ≤ n
  fallen : t ≤ s → n ≤ t.val
  at_target : n = t.val ↔ StaysAtEnd ((t.val : Int) - s.val) past parts
  between : tone ∈ Set.uIcc s t ↔
    n = t.val ∨ ∃ octaves : Int, octaves ≠ 0 ∧ n - 12 * octaves ∈ Set.uIcc (s.val : Int) t.val

theorem ofInt_mem_uIcc_iff {s t : PitchClass} {n : Int} (risen : s ≤ t → (t.val : Int) ≤ n)
    (fallen : t ≤ s → n ≤ t.val) : PitchClass.ofInt n ∈ Set.uIcc s t ↔
      n = t.val ∨ ∃ octaves : Int, octaves ≠ 0 ∧ n - 12 * octaves ∈ Set.uIcc (s.val : Int) t.val := by
  have reduced : ((PitchClass.ofInt n).val : Int) = n % 12 := by
    simp only [PitchClass.ofInt]
    omega
  simp only [Set.mem_uIcc, Fin.le_def] at risen fallen ⊢
  constructor
  · intro inside
    by_cases first : n / 12 = 0
    · left
      omega
    · right
      exact ⟨n / 12, first, by omega⟩
  · rintro (same | ⟨octaves, -, inside⟩)
    · omega
    · omega

theorem filledTone_of_lineNumber {s t : PitchClass} {steps : StepCount} {k n : Int}
    (beyond : steps.val < k) (h : lineNumber s t (k - 1) steps.val = .ok n) :
    FilledTone s t (k - (steps.val + 1)) (steps.val + 1) n (.ofInt n) := by
  obtain ⟨risen, fallen, at_target⟩ := lineNumber_spec beyond h
  exact ⟨rfl, risen, fallen, at_target, ofInt_mem_uIcc_iff risen fallen⟩

theorem length_walkSteps {start target : String} {steps : Int} {d : Direction} {snaps : Bool}
    {notes : List String} (h : walkSteps start target steps d snaps = .ok notes) :
    notes.length = steps.toNat := by
  simp only [walkSteps, bind_eq_ok, pure_eq_ok] at h
  obtain ⟨s, -, t, -, tones, htones, rfl⟩ := h
  rw [List.length_map, length_walkPitches htones]

namespace WalkPlan

theorem degree_of_beyond {r : RichRule} {params : WalkParameters} {context : PitchContext} {w : WalkPlan}
    (h : make r params context = .ok w) {e : TemplateEvent} {k : Int} (role : e.role = .walkStep)
    (index : e.stepIndex = some k) (beyond : params.steps.val < k) :
    w.degree e = interpolateStep w.start w.target (k - 1) params.steps.val := by
  obtain ⟨d, notes, -, hnotes, rfl⟩ := make_eq_ok.mp h
  have none_left : itemAt? notes (k - 1) = none := by
    have count := length_walkSteps hnotes
    have least := params.steps.property.1
    rw [itemAt?, if_pos (by omega), List.getElem?_eq_none_iff]
    omega
  simp only [degree, role, index, Option.getD_some, none_left]

/-- Steps of a template beyond the generated ones sound the target or tones past it. -/
theorem filled_past_target (r : RichRule) (params : WalkParameters) (p : Progression) (current next : Int) :
    let context : PitchContext := ⟨.ofProgression p, current, next⟩
    ∃ w s t, make r params context = .ok w ∧
      degreePitch (anchorDegree context.timeline current) = .ok s ∧
      degreePitch (anchorDegree context.timeline (params.targetChord context)) = .ok t ∧
      ∀ (e : TemplateEvent) (k : Int), e.role = .walkStep → e.stepIndex = some k → params.steps.val < k →
        (k ≤ 2 ^ 1000 → ∃ note, w.degree e = .ok note) ∧
        ∀ note, w.degree e = .ok note → ∃ n tone, degreePitch note = .ok tone ∧
          FilledTone s t (k - (params.steps.val + 1)) (params.steps.val + 1) n tone := by
  intro context
  have sounding : ∀ i, ∃ x, degreePitch (anchorDegree context.timeline i) = .ok x :=
    exists_degreePitch_anchorDegree p
  obtain ⟨w, hw⟩ := exists_make r params sounding
  obtain ⟨start, target, steps, -⟩ := make_spec hw
  obtain ⟨s, hs⟩ := sounding current
  obtain ⟨t, ht⟩ := sounding (params.targetChord context)
  have from_start : degreePitch w.start = .ok s := by rw [start, hs]
  have to_target : degreePitch w.target = .ok t := by rw [target, ht]
  refine ⟨w, s, t, hw, hs, ht, fun e k role index beyond => ⟨fun near => ?_, fun note hnote => ?_⟩⟩
  · refine exists_degree hw sounding (k := 1000) le_rfl ?_
    have least := params.steps.property.1
    rw [index, Option.getD_some]
    omega
  · rw [degree_of_beyond hw role index beyond] at hnote
    simp only [interpolateStep, from_start, to_target, bind_eq_ok, pure_eq_ok, Except.ok.injEq,
      exists_eq_left'] at hnote
    obtain ⟨tone, htone, rfl⟩ := hnote
    obtain ⟨n, hn, rfl⟩ := interpolatedPitch_eq_ok.mp htone
    exact ⟨n, _, degreePitch_degree _, filledTone_of_lineNumber beyond hn⟩

/-! ### From the third to the fourth -/

def thirdToFourth : Progression :=
  ⟨"two-bars", "C", ["III", "IV"].map fun degree => ⟨degree, none, Count.one⟩, [], ""⟩

def stepAt (k : Int) : TemplateEvent := ⟨⟨1, first_in_bar⟩, 0, .walkStep, some k, none⟩

def reachRule : RichRule := walkRule "reach" ⟨4, four_beats_pos⟩ [stepAt 5]

theorem degreePitch_third : degreePitch "III" = .ok 4 := by decide +kernel

theorem degreePitch_fourth : degreePitch "IV" = .ok 5 := by decide +kernel

/-- The step right behind two generated ones is the target. -/
theorem third_step_meets_target :
    ∃ w note tone, make reachRule usualWalk ⟨.ofProgression thirdToFourth, 0, 1⟩ = .ok w ∧
      w.degree (stepAt 3) = .ok note ∧ degreePitch note = .ok tone ∧
      tone ∈ Set.uIcc (4 : PitchClass) 5 := by
  obtain ⟨w, s, t, hw, hs, ht, filled⟩ := filled_past_target reachRule usualWalk thirdToFourth 0 1
  obtain rfl : 4 = s := Except.ok.inj (degreePitch_third.symm.trans hs)
  obtain rfl : 5 = t := Except.ok.inj (degreePitch_fourth.symm.trans ht)
  obtain ⟨made, spec⟩ := filled (stepAt 3) 3 rfl rfl (by decide)
  have near : (3 : Int) ≤ 2 ^ 1000 := (show (3 : Int) ≤ 2 ^ 2 by decide).trans
    (pow_le_pow_right₀ (by decide) (by decide))
  obtain ⟨note, hnote⟩ := made near
  obtain ⟨n, tone, htone, lies⟩ := spec note hnote
  exact ⟨w, note, tone, hw, hnote, htone, lies.between.mpr (.inl (lies.at_target.mpr (by decide)))⟩

/-- The fifth step sounds a semitone above the target. -/
theorem fifth_step_passes_target :
    reachRule.templateEvents = [stepAt 5] ∧ usualWalk.steps.val = 2 ∧
    ∃ w, make reachRule usualWalk ⟨.ofProgression thirdToFourth, 0, 1⟩ = .ok w ∧
      w.start = "III" ∧ w.target = "IV" ∧ w.degree (stepAt 5) = .ok "IV+1" ∧
      degreePitch "III" = .ok 4 ∧ degreePitch "IV" = .ok 5 ∧ degreePitch "IV+1" = .ok 6 ∧
      ¬ (6 : PitchClass) ∈ Set.uIcc (4 : PitchClass) 5 := by
  refine ⟨rfl, rfl, ⟨"III", "IV", .up, 2, false, ["III", "IV"]⟩, ok_of_toOption (by decide +kernel), rfl, rfl,
    by decide +kernel, degreePitch_third, degreePitch_fourth, by decide +kernel, ?_⟩
  rw [Set.mem_uIcc]
  decide

end WalkPlan

end Ostinato
