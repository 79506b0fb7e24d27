import Ostinato.Proofs.Walk.Tones

/-!
# Parameters of walks

The values that a walk is bound with are looked at twice: the rule says which of them it accepts, and
what is accepted has to be a value of the walk parameters, too. Only where the first is never wider than
the second do all values lead to walk parameters.
-/

namespace Ostinato

open Success

/-! ### Values that count -/

namespace RichRule

variable {r : RichRule} {values : List (String × Datum)}

theorem chosen?_eq_some {spec : ParameterSpec} {name : String} {x : Datum}
    (h : chosen? spec name values = some x) : (name, x) ∈ values ∧ spec.accepts x = true := by
  obtain ⟨v, hv, rfl⟩ := Option.map_eq_some_iff.mp h
  have member := List.mem_of_find?_eq_some hv
  have accepted := List.find?_some hv
  rw [Bool.and_eq_true, beq_iff_eq] at accepted
  obtain ⟨rfl, accepted⟩ := accepted
  exact ⟨List.mem_reverse.mp member, accepted⟩

theorem chosen?_single {spec : ParameterSpec} {name : String} {x : Datum} (accepted : spec.accepts x = true) :
    chosen? spec name [(name, x)] = some x := by
  simp [chosen?, accepted]

/-- A value that is not accepted counts as not given. -/
theorem merged_of_rejected {before after : List (String × Datum)} {v : String × Datum}
    (rejected : ∀ p ∈ r.parameters, p.1 = v.1 → p.2.accepts v.2 = false) :
    r.merged (before ++ v :: after) = r.merged (before ++ after) := by
  refine List.map_congr_left fun p hp => ?_
  have passed : (v.1 == p.1 && p.2.accepts v.2) = false := by
    by_cases same : v.1 = p.1
    · rw [rejected p hp same.symm, Bool.and_false]
    · simp [same]
  simp [chosen?, List.find?_append, passed]

end RichRule

/-! ### Fields -/

theorem Datum.get?_object_map {β : Type} (ps : List (String × β)) (value : String × β → Datum)
    (name : String) : (object (ps.map fun p => (p.1, value p))).get? name =
      (ps.find? fun p => p.1 == name).map value := by
  simp only [object, get?, List.map_map, List.find?_map, Option.map_map]
  rfl

namespace Field

variable {α : Type} {f : Field α}

theorem exists_orDefault_iff {default : α} {d : Datum} :
    (∃ a, f.orDefault default d = .ok a) ↔
      ∀ found, f.find? d = some found → ∃ a, f.codec.decode found.2 = .ok a := by
  unfold orDefault
  cases f.find? d with
  | none => simp
  | some found =>
    simp only [Checked.under_eq_ok, Option.some.injEq, forall_eq']

end Field

namespace RichRule

variable {r : RichRule} {α : Type} {f : Field α}

/-- The parameter of a rule that a field of the walk parameters is read from. -/
def spec? (r : RichRule) (f : Field α) : Option (String × ParameterSpec) :=
  f.names.findSome? fun name => r.parameters.find? fun p => p.1 == name

/-- A parameter none of whose accepted values is refused by the field that is read from it. -/
def Fits (r : RichRule) (f : Field α) : Prop :=
  ∀ p, r.spec? f = some p → ∀ v : Setting, p.2.accepts v.datum = true →
    ∃ a, f.codec.decode v.datum = .ok a

theorem find?_map (value : String × ParameterSpec → Datum) :
    f.find? (.object (r.parameters.map fun p => (p.1, value p))) =
      (r.spec? f).map fun p => (p.1, value p) := by
  unfold Field.find? spec?
  simp only [Datum.get?_object_map]
  induction f.names with
  | nil => rfl
  | cons name names ih =>
    simp only [List.findSome?_cons, ih]
    cases hp : r.parameters.find? fun p => p.1 == name with
    | none => rfl
    | some p =>
      have named : p.1 = name := by
        have same := List.find?_some hp
        exact beq_iff_eq.mp same
      simp only [Option.map_some, named]

/-- A field can be read for all given values exactly if it can be read for none and fits. -/
theorem forall_orDefault_iff_fits {default : α}
    (usable : ∃ a, f.orDefault default (.object r.defaults) = .ok a) :
    (∀ values : List (String × Setting),
      ∃ a, f.orDefault default (.object (r.merged (values.map fun v => (v.1, v.2.datum)))) = .ok a) ↔
      r.Fits f := by
  simp only [Field.exists_orDefault_iff, merged, defaults, find?_map] at usable ⊢
  constructor
  · intro total p hp v accepted
    have read := total [(p.1, v)] _ (Option.map_eq_some_iff.mpr ⟨p, hp, rfl⟩)
    simpa only [List.map_cons, List.map_nil, chosen?_single accepted, Option.getD_some] using read
  · intro fits values found hfound
    obtain ⟨p, hp, rfl⟩ := Option.map_eq_some_iff.mp hfound
    cases chosen : chosen? p.2 p.1 (values.map fun v => (v.1, v.2.datum)) with
    | none => exact usable _ (Option.map_eq_some_iff.mpr ⟨p, hp, rfl⟩)
    | some x =>
      obtain ⟨given, accepted⟩ := chosen?_eq_some chosen
      obtain ⟨v, -, hv⟩ := List.mem_map.mp given
      obtain rfl := (Prod.mk.inj hv).2
      exact fits p hp v.2 accepted

/-- A choice fits exactly if each word to choose from is one of the field. -/
theorem fits_iff_of_choice {name : String} {spec : ParameterSpec} (h : r.spec? f = some (name, spec))
    (kind : spec.kind = .choice) :
    r.Fits f ↔ ∀ word ∈ spec.values.getD [], ∃ a, f.codec.decode (.text word) = .ok a := by
  constructor
  · intro fits word hword
    refine fits _ h (.text word) ?_
    simp only [ParameterSpec.accepts, kind, Setting.datum, List.contains_iff_mem, hword]
  · intro all p hp v accepted
    rw [h] at hp
    obtain rfl := Option.some.inj hp
    cases v with
    | number n => simp [ParameterSpec.accepts, kind, Setting.datum] at accepted
    | text word =>
      simp only [ParameterSpec.accepts, kind, Setting.datum, List.contains_iff_mem] at accepted
      exact all word accepted

/-- A range fits exactly if each number in it is one of the field. -/
theorem fits_iff_of_integer {name : String} {spec : ParameterSpec} (h : r.spec? f = some (name, spec))
    (kind : spec.kind = .integer) :
    r.Fits f ↔ ∀ n, ParameterSpec.reaches spec.least n = true → ParameterSpec.within spec.greatest n = true →
      ∃ a, f.codec.decode (.int n) = .ok a := by
  constructor
  · intro fits n low high
    refine fits _ h (.number n) ?_
    simp only [ParameterSpec.accepts, kind, Setting.datum, low, high, Bool.and_self]
  · intro all p hp v accepted
    rw [h] at hp
    obtain rfl := Option.some.inj hp
    cases v with
    | text word => simp [ParameterSpec.accepts, kind, Setting.datum] at accepted
    | number n =>
      simp only [ParameterSpec.accepts, kind, Setting.datum, Bool.and_eq_true] at accepted
      exact all n accepted.1 accepted.2

end RichRule

theorem Codec.exists_decode_word_iff {α : Type} {cause : List String → Fault.Cause} {all : List α}
    {spell : α → String} {word : String} :
    (∃ a, (Codec.word cause all spell).decode (.text word) = .ok a) ↔ word ∈ all.map spell := by
  simp only [Codec.word]
  constructor
  · rintro ⟨a, ha⟩
    split at ha
    · rename_i b found
      have matched := List.find?_some found
      have spelled : word = spell b := beq_iff_eq.mp matched
      exact List.mem_map.mpr ⟨b, List.mem_of_find?_eq_some found, spelled.symm⟩
    · cases ha
  · intro listed
    obtain ⟨a, ha, rfl⟩ := List.mem_map.mp listed
    split
    · exact ⟨_, rfl⟩
    · rename_i missing
      exact absurd (beq_self_eq_true (spell a)) (List.find?_eq_none.mp missing a ha)

theorem Codec.exists_decode_intBetween_iff {least greatest n : Int} :
    (∃ a, (Codec.intBetween least greatest).decode (.int n) = .ok a) ↔ least ≤ n ∧ n ≤ greatest := by
  simp only [intBetween, int, Checked.bind]
  constructor
  · rintro ⟨a, ha⟩
    split at ha
    · rename_i low
      split at ha
      · rename_i high
        exact ⟨low, high⟩
      · cases ha
    · cases ha
  · rintro ⟨low, high⟩
    exact ⟨⟨n, low, high⟩, by rw [dif_pos low, dif_pos high]⟩

/-! ### Walk parameters -/

/-- Parameters of which no accepted value is refused as a walk parameter. -/
structure RichRule.SchemaFits (r : RichRule) : Prop where
  target : r.Fits WalkParameters.targetField
  steps : r.Fits WalkParameters.stepsField
  direction : r.Fits WalkParameters.directionField
  approach : r.Fits WalkParameters.approachField
  register : r.Fits WalkParameters.registerField
  genreProfile : r.Fits WalkParameters.genreProfileField

namespace WalkParameters

/-- Each field is read for itself. -/
theorem exists_ofValues_iff {es : List (String × Datum)} : (∃ p, ofValues es = .ok p) ↔
    (∃ a, targetField.orDefault .nextChordRoot (.object es) = .ok a) ∧
    (∃ a, stepsField.orDefault ⟨2, by decide⟩ (.object es) = .ok a) ∧
    (∃ a, directionField.orDefault .auto (.object es) = .ok a) ∧
    (∃ a, approachField.orDefault .chromatic (.object es) = .ok a) ∧
    (∃ a, registerField.orDefault "low" (.object es) = .ok a) ∧
    (∃ a, genreProfileField.orDefault "custom" (.object es) = .ok a) := by
  have record : codec.decode (.object es) = read (.object es) := rfl
  simp only [ofValues, Checked.orReject_eq_ok, record, read, Checked.map_eq, Checked.seq_eq,
    Checked.apply_eq_ok, Checked.map_eq_ok]
  constructor
  · rintro ⟨_, _, f, ⟨_, e, ⟨_, d, ⟨_, c, ⟨_, b, ⟨a, ha, -⟩, hb, -⟩, hc, -⟩, hd, -⟩, he, -⟩, hf, -⟩
    exact ⟨⟨a, ha⟩, ⟨b, hb⟩, ⟨c, hc⟩, ⟨d, hd⟩, ⟨e, he⟩, ⟨f, hf⟩⟩
  · rintro ⟨⟨a, ha⟩, ⟨b, hb⟩, ⟨c, hc⟩, ⟨d, hd⟩, ⟨e, he⟩, ⟨f, hf⟩⟩
    exact ⟨_, _, f, ⟨_, e, ⟨_, d, ⟨_, c, ⟨_, b, ⟨a, ha, rfl⟩, hb, rfl⟩, hc, rfl⟩, hd, rfl⟩, he, rfl⟩, hf, rfl⟩

end WalkParameters

/-- All values lead to walk parameters exactly if the parameters of the rule fit. -/
theorem RichRule.forall_walkParameters_iff {r : RichRule} (usable : ∃ p, r.defaultWalkParameters = .ok p) :
    (∀ values : List (String × Setting),
      ∃ p, r.walkParameters (values.map fun v => (v.1, v.2.datum)) = .ok p) ↔ r.SchemaFits := by
  obtain ⟨target, steps, direction, approach, register, genre⟩ :=
    WalkParameters.exists_ofValues_iff.mp usable
  simp only [walkParameters, WalkParameters.exists_ofValues_iff, forall_and,
    forall_orDefault_iff_fits target, forall_orDefault_iff_fits steps, forall_orDefault_iff_fits direction,
    forall_orDefault_iff_fits approach, forall_orDefault_iff_fits register, forall_orDefault_iff_fits genre]
  constructor
  · rintro ⟨target, steps, direction, approach, register, genre⟩
    exact ⟨target, steps, direction, approach, register, genre⟩
  · intro fits
    exact ⟨fits.target, fits.steps, fits.direction, fits.approach, fits.register, fits.genreProfile⟩

end Ostinato
