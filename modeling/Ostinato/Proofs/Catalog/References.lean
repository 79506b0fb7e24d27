import Ostinato.Catalog.Check
import Ostinato.Proofs.Arrangement.Omissions
import Ostinato.Proofs.Arrangement.WalkNotes
import Ostinato.Proofs.Catalog.Tables

/-!
# References that are met

The check of a catalog tells beforehand what an arrangement meets. In a catalog without problems each rule
has what it refers to, and a rule that is told to lack its riff is left out for that wherever it is bound.
-/

namespace Ostinato

open Success

variable {c : Catalog} {rule : RichRule}

namespace Catalog

variable {problem : Problem}

/-! ### Problems of a rule -/

theorem exists_of_mem_doubledRules {seen : List String} {rules : List Rule}
    (h : problem ∈ doubledRules seen rules) : ∃ id, problem = .doubledRule id := by
  induction rules generalizing seen with
  | nil => cases h
  | cons r rest ih =>
    rw [doubledRules] at h
    rcases List.mem_append.mp h with first | later
    · exact ⟨r.id, by simpa using (List.mem_ite_nil_right.mp first).2⟩
    · exact ih later

/-- The problems of a rich rule: of its walk, or of its riff. -/
def ruleProblems (c : Catalog) (rule : RichRule) : List Problem :=
  if rule.isWalk then walkProblems rule else riffProblems c rule

theorem problems_eq (c : Catalog) :
    c.problems = doubledRules [] c.rules ++ c.richRules.flatMap c.ruleProblems := rfl

theorem ruleProblems_eq_nil (sound : c.problems = []) (member : rule ∈ c.richRules) :
    c.ruleProblems rule = [] := by
  rw [problems_eq, List.append_eq_nil_iff, List.flatMap_eq_nil_iff] at sound
  exact sound.2 rule member

/-! ### Riffs -/

/-- A problem that a rule has no riff, or names one that is not there. -/
inductive Problem.LacksRiff (rule : String) : Problem → Prop
  | noRiff : LacksRiff rule (.noRiff rule)
  | unknownRiff (riff : String) : LacksRiff rule (.unknownRiff rule riff)

theorem Problem.LacksRiff.unique {id id' : String} (h : problem.LacksRiff id)
    (h' : problem.LacksRiff id') : id = id' := by
  cases h <;> cases h' <;> rfl

theorem riff?_empty (keyed : c.Keyed) : c.riff? "" = none := by
  cases found : c.riff? "" with
  | none => rfl
  | some riff =>
    obtain ⟨member, nameless⟩ := mem_of_withId? found
    exact absurd nameless (keyed.named riff member)

theorem riffProblems_eq_nil_iff (keyed : c.Keyed) :
    riffProblems c rule = [] ↔ ∃ riff, c.riffOf? rule = some riff := by
  unfold riffProblems riffOf?
  cases rule.riffId with
  | none => simp
  | some id =>
    simp only [Option.bind_some, ← Option.ne_none_iff_exists']
    split_ifs with empty unknown
    · simp [empty, riff?_empty keyed]
    · simpa using unknown
    · simpa using unknown

theorem lacksRiff_of_mem_riffProblems (h : problem ∈ riffProblems c rule) : problem.LacksRiff rule.id := by
  unfold riffProblems at h
  split at h
  · exact List.mem_singleton.mp h ▸ .noRiff
  · split_ifs at h
    · exact List.mem_singleton.mp h ▸ .noRiff
    · exact List.mem_singleton.mp h ▸ .unknownRiff _
    · cases h

theorem not_lacksRiff_of_mem_walkProblems {id : String} (h : problem ∈ walkProblems rule) :
    ¬problem.LacksRiff id := by
  rintro (_ | _) <;> simp [walkProblems] at h

theorem mem_problems_iff_of_lacksRiff {id : String} (lacks : problem.LacksRiff id) :
    problem ∈ c.problems ↔
      ∃ rule ∈ c.richRules, rule.isWalk = false ∧ problem ∈ riffProblems c rule := by
  rw [problems_eq, List.mem_append, List.mem_flatMap]
  constructor
  · rintro (doubled | ⟨rule, member, told⟩)
    · obtain ⟨id, rfl⟩ := exists_of_mem_doubledRules doubled
      cases lacks
    · unfold ruleProblems at told
      split_ifs at told with walk
      · exact absurd lacks (not_lacksRiff_of_mem_walkProblems told)
      · exact ⟨rule, member, by simpa using walk, told⟩
  · rintro ⟨rule, member, fixed, told⟩
    exact .inr ⟨rule, member, by rwa [ruleProblems, if_neg (by simp [fixed])]⟩

/-- The check tells that a rule lacks its riff exactly if there is none to play. -/
theorem exists_lacksRiff_iff (keyed : c.Keyed) (member : rule ∈ c.richRules) (fixed : rule.isWalk = false) :
    (∃ problem ∈ c.problems, problem.LacksRiff rule.id) ↔ c.riffOf? rule = none := by
  have missing_iff : c.riffOf? rule = none ↔ riffProblems c rule ≠ [] := by
    rw [ne_eq, riffProblems_eq_nil_iff keyed, ← Option.ne_none_iff_exists', not_not]
  rw [missing_iff]
  constructor
  · rintro ⟨problem, told, lacks⟩
    obtain ⟨other, member', -, told⟩ := (mem_problems_iff_of_lacksRiff lacks).mp told
    -- a problem names its rule, and no other rule has this id
    have same_id := (lacksRiff_of_mem_riffProblems told).unique lacks
    obtain rfl := List.inj_on_of_nodup_map keyed.distinct member' member same_id
    exact List.ne_nil_of_mem told
  · intro some_problem
    obtain ⟨problem, told⟩ := List.exists_mem_of_ne_nil _ some_problem
    have lacks := lacksRiff_of_mem_riffProblems told
    exact ⟨problem, (mem_problems_iff_of_lacksRiff lacks).mpr ⟨rule, member, fixed, told⟩, lacks⟩

/-! ### Walks -/

theorem of_walkProblems_eq_nil (h : walkProblems rule = []) :
    (∃ template, rule.template = some template) ∧ ∃ profile, rule.profile? "custom" = some profile := by
  simp only [walkProblems, List.append_eq_nil_iff, ite_eq_right_iff, List.cons_ne_nil, imp_false,
    Option.isNone_iff_eq_none, ← ne_eq, Option.ne_none_iff_exists'] at h
  exact h.1

end Catalog

/-- Whether a walk takes a profile that its rule defines for a genre: the one with this name, or the custom
one where there is none. -/
def RichRule.DefinesProfile (r : RichRule) (genre : String) : Prop :=
  ∃ name profile, (name, profile) ∈ r.genreProfiles ∧
    (name = genre ∨ name = "custom" ∧ r.profile? genre = none) ∧ r.walkProfile genre = profile

theorem RichRule.mem_of_profile? {r : RichRule} {genre : String} {profile : GenreProfile}
    (h : r.profile? genre = some profile) : (genre, profile) ∈ r.genreProfiles := by
  obtain ⟨⟨name, profile⟩, found, rfl⟩ := Option.map_eq_some_iff.mp h
  obtain rfl : name = genre := by simpa using List.find?_some found
  exact List.mem_of_find?_eq_some found

theorem RichRule.definesProfile {r : RichRule} (custom : ∃ profile, r.profile? "custom" = some profile)
    (genre : String) : r.DefinesProfile genre := by
  cases named : r.profile? genre with
  | some profile => exact ⟨genre, profile, mem_of_profile? named, .inl rfl, by rw [walkProfile, named]⟩
  | none =>
    obtain ⟨profile, custom⟩ := custom
    refine ⟨"custom", profile, mem_of_profile? custom, .inr ⟨rfl, named⟩, ?_⟩
    rw [walkProfile, named, custom, Option.getD_some]

/-! ### Engagements -/

variable {t : Timeline} {r : AppliedRule} {e : Engagement}

/-- Whether an engagement has all that it refers to: its riff, or a template and a profile of its own for
each walk that is worked out. -/
inductive Engagement.Resolved (c : Catalog) (t : Timeline) (e : Engagement) : Prop
  | riff {riff : Riff} (fixed : e.rule.isWalk = false) (found : c.riffOf? e.rule = some riff)
      (played : e.figure = .riff riff)
  | walk {template : WalkTemplate} (walk : e.rule.isWalk = true) (played : e.figure = .walk)
      (written : e.rule.template = some template)
      (resolved : ∀ q ∈ e.performances t, ∃ params riff,
        e.rule.walkParameters e.applied.values = .ok params ∧
          e.rule.walkRiff params q.context = .ok riff ∧ q.riff = .ok riff ∧
          e.rule.DefinesProfile params.genreProfile)

theorem Performance.exists_params_of_riff {q : Performance} (figure : q.engagement.figure = .walk)
    {riff : Riff} (h : q.riff = .ok riff) :
    ∃ params, q.engagement.rule.walkParameters q.engagement.applied.values = .ok params ∧
      q.engagement.rule.walkRiff params q.context = .ok riff := by
  rw [riff_eq_resolveWalk figure] at h
  obtain ⟨params, read, made⟩ := bind_eq_ok.mp h
  exact ⟨params, Failure.ofRecord_eq_ok.mp read, made⟩

theorem Engagement.resolved_of_make (sound : c.problems = []) (h : make c t r = .ok (.ok e))
    (worked_out : ∀ q ∈ e.performances t, ∃ riff, q.riff = .ok riff) : e.Resolved c t := by
  obtain ⟨-, known, length, played, -⟩ := make_eq_engagement.mp h
  have rule_sound := Catalog.ruleProblems_eq_nil sound (Catalog.mem_of_withId? known).1
  unfold figureOf? at played
  split_ifs at played with walk
  · obtain ⟨figure, -⟩ := Prod.mk.inj (Option.some.inj played)
    obtain ⟨⟨template, written⟩, custom⟩ :=
      Catalog.of_walkProblems_eq_nil ((if_pos walk).symm.trans rule_sound)
    refine .walk walk figure.symm written fun q member => ?_
    obtain ⟨riff, made⟩ := worked_out q member
    have engaged := Candidate.engagement_of_mem_performances member
    obtain ⟨params, read, resolved⟩ := Performance.exists_params_of_riff (by rw [engaged, figure]) made
    rw [engaged] at read resolved
    exact ⟨params, riff, read, resolved, made, RichRule.definesProfile custom _⟩
  · obtain ⟨riff, found, pair⟩ := Option.map_eq_some_iff.mp played
    obtain ⟨figure, -⟩ := Prod.mk.inj pair
    exact .riff (by simpa using walk) found figure.symm

/-! ### Arrangements -/

variable {p : Progression} {parts : List Part} {rules : List AppliedRule} {a : Arrangement}

theorem Arrangement.resolved_of_make (sound : c.problems = []) (h : make p parts rules c = .ok a)
    {part : Part} (hp : part ∈ parts) (heard : part.muted = false) :
    ∃ roster, Roster.make c (.ofProgression p) part.id (BindingSet.ofList rules).toList = .ok roster ∧
      ∀ e ∈ roster.engagements, e.Resolved c (.ofProgression p) := by
  have voiced : part ∈ a.voices.map (·.part) := by
    rw [parts_eq h]
    exact List.mem_filter.mpr ⟨hp, by simp [heard]⟩
  obtain ⟨v, hv, rfl⟩ := List.mem_map.mp voiced
  obtain ⟨outcomes, cs, notes, houtcomes, hcs, -, -⟩ := voice_of_mem h hv
  rw [timeline_eq h] at houtcomes hcs
  refine ⟨_, Roster.make_eq_ok.mpr ⟨outcomes, houtcomes, rfl⟩, fun e engaged => ?_⟩
  obtain ⟨r, -, made⟩ :=
    exists_of_mem_mapM houtcomes (Roster.mem_engaged.mp (List.mem_mergeSort.mp engaged))
  refine Engagement.resolved_of_make sound made fun q member => ?_
  -- each performance of the part was worked out, as the part has a voice
  obtain ⟨css, placed, -⟩ := Candidate.ofEngagements_eq_ok.mp hcs
  obtain ⟨candidates, -, performed⟩ :=
    exists_mem_of_mapM placed (List.mem_flatMap.mpr ⟨e, engaged, member⟩)
  obtain ⟨events, hevents, -⟩ := map_eq_ok.mp performed
  obtain ⟨riff, hriff, -⟩ := bind_eq_ok.mp hevents
  exact ⟨riff, hriff⟩

theorem Catalog.exists_riff_of_sound (keyed : c.Keyed) (sound : c.problems = []) {id : String}
    (known : c.richRule? id = some rule) (fixed : rule.isWalk = false) :
    ∃ riff, c.riffOf? rule = some riff := by
  have rule_sound := ruleProblems_eq_nil sound (mem_of_withId? known).1
  exact (riffProblems_eq_nil_iff keyed).mp ((if_neg (by simp [fixed])).symm.trans rule_sound)

theorem Voice.make_nil (part : Part) : Voice.make c t [] part = .ok (⟨part, []⟩, []) := by
  have none_engaged : ([] : List Engagement).mergeSort Engagement.notAfter = [] := List.mergeSort_nil
  have none_played : ([] : List NoteEvent).mergeSort NoteEvent.notAfter = [] := List.mergeSort_nil
  refine make_eq_ok.mpr ⟨[], [], [], rfl, ?_, rfl, by rw [none_played], rfl⟩
  rw [Roster.engaged, none_engaged]
  rfl

/-- Where all bound rules are left out, nothing can fail. -/
theorem Arrangement.exists_make_of_defective
    (defective : ∀ r ∈ (BindingSet.ofList rules).toList, r.IsDefective c (.ofProgression p))
    (parts : List Part) : ∃ a, make p parts rules c = .ok a := by
  have none_left : ((BindingSet.ofList rules).toList.filter fun r =>
      ¬r.IsDefective c (.ofProgression p)) = [] := by
    simpa using defective
  have silent : (make p parts [] c).map (·.voices) =
      .ok ((parts.filter fun part => !part.muted).map fun part => ⟨part, []⟩) := by
    rw [map_voices_make]
    refine mapM_of_forall fun part _ => ?_
    exact congrArg (Except.map Prod.fst) (Voice.make_nil part)
  rw [← none_left, map_voices_make_sound] at silent
  obtain ⟨a, made, -⟩ := map_eq_ok.mp silent
  exact ⟨a, made⟩

/-- Whether a message tells of a bound rule that the catalog does not have, or of a slot outside the
timeline. -/
inductive Arrangement.TellsRuleOrSlot (c : Catalog) (bound : List AppliedRule) (message : String) : Prop
  | unknownRule {r : AppliedRule} (member : r ∈ bound) (unknown : c.richRule? r.ruleId = none)
      (told : message = (Omission.unknownRule r.ruleId).message)
  | outsideTimeline {r : AppliedRule} {rule : RichRule} (member : r ∈ bound)
      (known : c.richRule? r.ruleId = some rule)
      (told : message = (Omission.outsideTimeline rule.id r.slot).message)

theorem Arrangement.tellsRuleOrSlot_of_mem (keyed : c.Keyed) (sound : c.problems = [])
    (h : make p parts rules c = .ok a) {message : String} (told : message ∈ a.diagnostics) :
    TellsRuleOrSlot c (BindingSet.ofList rules).toList message := by
  obtain ⟨r, member, o, defect, rfl, -⟩ := (mem_diagnostics h message).mp told
  cases defect with
  | unknownRule unknown => exact .unknownRule member unknown rfl
  | unknownRiff known fixed missing =>
    obtain ⟨riff, found⟩ := c.exists_riff_of_sound keyed sound known fixed
    rw [missing] at found
    cases found
  | outsideTimeline known played nowhere => exact .outsideTimeline member known rfl

/-- A rule that is bound everywhere is told to have an unknown riff exactly if there is no riff to play. -/
theorem Arrangement.told_everywhere_iff (keyed : c.Keyed) (member : rule ∈ c.richRules)
    (fixed : rule.isWalk = false) (p : Progression) {part : Part} (hp : part ∈ parts)
    (heard : part.muted = false) (named : r.ruleId = rule.id) (everywhere : r.slot = .global)
    (applies : r.appliesTo part.id = true) :
    (∃ a, make p parts [r] c = .ok a ∧
        (Omission.unknownRiff rule.id rule.riffId).message ∈ a.diagnostics) ↔ c.riffOf? rule = none := by
  have known : c.richRule? r.ruleId = some rule := by
    rw [named]
    exact Catalog.withId?_of_mem keyed.distinct member
  have alone : (BindingSet.ofList [r]).toList = [r] := rfl
  constructor
  · rintro ⟨a, made, told⟩
    obtain ⟨r', member', o, defect, -⟩ := (mem_diagnostics made _).mp told
    rw [alone] at member'
    obtain rfl := List.mem_singleton.mp member'
    cases defect with
    | unknownRule unknown =>
      rw [known] at unknown
      cases unknown
    | unknownRiff known' _ missing =>
      rw [known] at known'
      exact Option.some.inj known' ▸ missing
    | outsideTimeline _ _ nowhere =>
      rw [everywhere] at nowhere
      cases nowhere
  · intro missing
    have defect : r.Defect c (.ofProgression p) (.unknownRiff rule.id rule.riffId) :=
      .unknownRiff known fixed missing
    have defective : ∀ r' ∈ (BindingSet.ofList [r]).toList, r'.IsDefective c (.ofProgression p) := by
      intro r' member'
      rw [alone] at member'
      exact List.mem_singleton.mp member' ▸ ⟨_, defect⟩
    obtain ⟨a, made⟩ := exists_make_of_defective defective parts
    refine ⟨a, made, (mem_diagnostics made _).mpr ⟨r, ?_, _, defect, rfl, part, hp, heard, applies⟩⟩
    rw [alone]
    exact List.mem_singleton.mpr rfl

/-- In a catalog without problems, what an arrangement leaves out is unknown or lies outside the timeline:
all rules that are bound have their riffs, and each engagement has all that it refers to. In any catalog, a
rule that is not a walk is told to lack its riff exactly if it is left out for that when it is bound
everywhere, for a part that is heard. -/
theorem Catalog.references_met {c : Catalog} (built : c.IsBuilt) :
    (c.problems = [] → ∀ p parts rules a, Arrangement.make p parts rules c = .ok a →
      let bound := (BindingSet.ofList rules).toList
      (∀ message ∈ a.diagnostics, Arrangement.TellsRuleOrSlot c bound message) ∧
      (∀ r ∈ bound, ∀ rule, c.richRule? r.ruleId = some rule → rule.isWalk = false →
        ∃ riff, c.riffOf? rule = some riff) ∧
      ∀ part ∈ parts, part.muted = false →
        ∃ roster, Roster.make c (.ofProgression p) part.id bound = .ok roster ∧
          ∀ e ∈ roster.engagements, e.Resolved c (.ofProgression p)) ∧
    ∀ rule ∈ c.richRules, rule.isWalk = false →
      ∀ (p : Progression) (parts : List Part), ∀ part ∈ parts, part.muted = false →
        ∀ r : AppliedRule, r.ruleId = rule.id → r.slot = .global → r.appliesTo part.id = true →
          ((∃ problem ∈ c.problems, problem.LacksRiff rule.id) ↔
            ∃ a, Arrangement.make p parts [r] c = .ok a ∧
              (Omission.unknownRiff rule.id rule.riffId).message ∈ a.diagnostics) := by
  have keyed := built.keyed
  constructor
  · intro sound p parts rules a made bound
    refine ⟨fun message told => Arrangement.tellsRuleOrSlot_of_mem keyed sound made told, ?_, ?_⟩
    · exact fun r _ rule known fixed => c.exists_riff_of_sound keyed sound known fixed
    · exact fun part hp heard => Arrangement.resolved_of_make sound made hp heard
  · intro rule member fixed p parts part hp heard r named everywhere applies
    rw [exists_lacksRiff_iff keyed member fixed,
      Arrangement.told_everywhere_iff keyed member fixed p hp heard named everywhere applies]

/-! ### A walk of the bundled catalog, and a rule without a riff -/

def bundledStride : AppliedRule := ⟨"walk_to_next_chord", .bar 1, none, none, none⟩

def strideOfBundle : Engagement := ⟨bundledStride, Catalog.bundledWalk, .walk, ⟨4, 5, 8, 1, 2⟩⟩

/-- A rule whose riff is not in the catalog. -/
def Catalog.lostRows : Rows :=
  { noRows with richRules := [.object [("id", .text "lost"), ("riff_id", .text "gone")]] }

def boundLost : AppliedRule := ⟨"lost", .global, none, none, none⟩

theorem Arrangement.make_bundledStride :
    ∃ a, make threeBars [bassPart] [bundledStride] Catalog.bundled = .ok a := by
  have played : (strideOfBundle.performances (.ofProgression threeBars)).mapM
      (Performance.notes (.ofProgression threeBars) bassPart) =
      .ok [[heldRoot "IV" 5, heldRoot "IV+1" 6, heldRoot "IV+1" 7, heldRoot "IV+1" 8, heldRoot "V" 9]] :=
    ok_of_toOption (by decide +kernel)
  have found : Catalog.bundled.richRule? bundledStride.ruleId = some Catalog.bundledWalk := rfl
  have span : bundledStride.slot.span? (.ofProgression threeBars) (.whole Catalog.bundledWalk.walkLength) =
    .ok (some strideOfBundle.span) := rfl
  obtain ⟨a, made, -⟩ :=
    map_eq_ok.mp (map_voices_of_walk bassPart rfl rfl found rfl span played (by decide +kernel))
  exact ⟨a, made⟩

theorem Catalog.bundled_references_met :
    bundled.problems = [] ∧
    (∃ a roster, Arrangement.make threeBars [bassPart] [bundledStride] bundled = .ok a ∧
      (∀ message ∈ a.diagnostics, Arrangement.TellsRuleOrSlot bundled [bundledStride] message) ∧
      Roster.make bundled (.ofProgression threeBars) bassPart.id [bundledStride] = .ok roster ∧
      ∀ e ∈ roster.engagements, e.Resolved bundled (.ofProgression threeBars)) ∧
    ∃ c a, bundled.extend lostRows = .ok c ∧ .unknownRiff "lost" "gone" ∈ c.problems ∧
      Arrangement.make threeBars [bassPart] [boundLost] c = .ok a ∧
      "Rule 'lost' references unknown riff 'gone', skipped" ∈ a.diagnostics := by
  have sound : bundled.problems = [] := by decide +kernel
  refine ⟨sound, ?_, ?_⟩
  · obtain ⟨a, made⟩ := Arrangement.make_bundledStride
    obtain ⟨told, -, resolved⟩ := (references_met isBuilt_bundled).1 sound _ _ _ a made
    obtain ⟨roster, engaged, resolved⟩ := resolved bassPart List.mem_cons_self rfl
    exact ⟨a, roster, made, told, engaged, resolved⟩
  · have made : (bundled.extend lostRows).toOption.map (fun c =>
        (c.richRule? "lost" |>.map fun rule => (rule.id, rule.isWalk, rule.riffId), c.problems)) =
        some (some ("lost", false, some "gone"), [.unknownRiff "lost" "gone"]) := by decide +kernel
    generalize extended : bundled.extend lostRows = result at made
    cases result with
    | error failure => cases made
    | ok c =>
      obtain ⟨found, problems⟩ := by
        simpa only [Except.toOption, Option.map_some, Option.some.injEq, Prod.mk.injEq] using made
      obtain ⟨rule, known, facts⟩ := Option.map_eq_some_iff.mp found
      obtain ⟨named, fixed, riff⟩ := by simpa only [Prod.mk.injEq] using facts
      have listed : .unknownRiff "lost" "gone" ∈ c.problems := by
        rw [problems]
        exact List.mem_singleton.mpr rfl
      obtain ⟨a, arranged, told⟩ := ((references_met ⟨bundled, lostRows, .inr rfl, extended⟩).2 rule
        (mem_of_withId? known).1 fixed threeBars [bassPart] bassPart List.mem_cons_self rfl boundLost
        named.symm rfl rfl).mp ⟨_, listed, named ▸ .unknownRiff "gone"⟩
      rw [named, riff] at told
      exact ⟨c, a, rfl, listed, arranged, told⟩

end Ostinato
