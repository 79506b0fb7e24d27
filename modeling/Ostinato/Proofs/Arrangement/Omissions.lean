import Ostinato.Proofs.Arrangement.BindingOrder
import Ostinato.Proofs.Arrangement.Independence
import Ostinato.Proofs.Arrangement.Undisputed
import Ostinato.Proofs.BindingSet.History

/-!
# Rules that are left out

A bound rule is left out if the catalog does not have it, if its riff is missing, or if its slot lies
outside the timeline. It is then as if the rule were not bound, except that this is told.
-/

namespace Ostinato

open Success

variable {c : Catalog} {t : Timeline} {rules : List AppliedRule} {part : Part} {r : AppliedRule}

/-! ### Defects of bound rules -/

/-- What is wrong with a bound rule that has no place in any roster. -/
inductive AppliedRule.Defect (c : Catalog) (t : Timeline) (r : AppliedRule) : Omission → Prop
  | unknownRule (unknown : c.richRule? r.ruleId = none) : r.Defect c t (.unknownRule r.ruleId)
  | unknownRiff {rule : RichRule} (known : c.richRule? r.ruleId = some rule)
      (fixed : rule.isWalk = false) (missing : c.riffOf? rule = none) :
      r.Defect c t (.unknownRiff rule.id rule.riffId)
  | outsideTimeline {rule : RichRule} {figure : Figure} {length : Amount}
      (known : c.richRule? r.ruleId = some rule)
      (played : Engagement.figureOf? c rule = some (figure, length))
      (nowhere : r.slot.span? t length = .ok none) : r.Defect c t (.outsideTimeline rule.id r.slot)

def AppliedRule.IsDefective (c : Catalog) (t : Timeline) (r : AppliedRule) : Prop := ∃ o, r.Defect c t o

theorem Engagement.figureOf?_eq_none {rule : RichRule} :
    figureOf? c rule = none ↔ rule.isWalk = false ∧ c.riffOf? rule = none := by
  cases hw : rule.isWalk with
  | true => simp [figureOf?, hw]
  | false => simp [figureOf?, hw]

/-- The outcomes that are no engagements are the defects. -/
theorem Engagement.make_eq_omission {o : Omission} :
    Engagement.make c t r = .ok (.error o) ↔ r.Defect c t o := by
  constructor
  · intro h
    cases known : c.richRule? r.ruleId with
    | none =>
      simp only [make, known, Except.ok.injEq, Except.error.injEq] at h
      exact h ▸ .unknownRule known
    | some rule =>
      cases played : figureOf? c rule with
      | none =>
        simp only [make, known, played, Except.ok.injEq, Except.error.injEq] at h
        obtain ⟨fixed, missing⟩ := figureOf?_eq_none.mp played
        exact h ▸ .unknownRiff known fixed missing
      | some f =>
        simp only [make, known, played, map_eq_ok] at h
        obtain ⟨span, hspan, outcome⟩ := h
        cases span with
        | none =>
          cases outcome
          exact .outsideTimeline known played hspan
        | some span => cases outcome
  · intro h
    cases h with
    | unknownRule unknown => simp only [make, unknown]
    | unknownRiff known fixed missing =>
      have unplayable := figureOf?_eq_none.mpr ⟨fixed, missing⟩
      simp only [make, known, unplayable]
    | outsideTimeline known played nowhere => simp only [make, known, played, nowhere, Except.map]

instance (c : Catalog) (t : Timeline) (r : AppliedRule) : Decidable (r.IsDefective c t) :=
  match made : Engagement.make c t r with
  | .ok (.error o) => .isTrue ⟨o, Engagement.make_eq_omission.mp made⟩
  | .ok (.ok _) => .isFalse fun ⟨_, defect⟩ => by
    rw [Engagement.make_eq_omission.mpr defect] at made
    cases made
  | .error _ => .isFalse fun ⟨_, defect⟩ => by
    rw [Engagement.make_eq_omission.mpr defect] at made
    cases made

/-! ### Rosters and voices -/

namespace Roster

theorem mem_engaged {os : List (Except Omission Engagement)} {e : Engagement} :
    e ∈ engaged os ↔ .ok e ∈ os := by
  induction os with
  | nil => simp [engaged]
  | cons outcome os ih => cases outcome <;> simp [engaged, ih]

theorem mem_omitted {os : List (Except Omission Engagement)} {o : Omission} :
    o ∈ omitted os ↔ .error o ∈ os := by
  induction os with
  | nil => simp [omitted]
  | cons outcome os ih => cases outcome <;> simp [omitted, ih]

theorem map_engaged_mapM_cons (f : AppliedRule → Except NumberFault (Except Omission Engagement))
    (r : AppliedRule) (l : List AppliedRule) :
    ((r :: l).mapM f).map engaged =
      (f r).bind fun outcome => ((l.mapM f).map engaged).map fun es => engaged [outcome] ++ es := by
  rw [List.mapM_cons]
  cases f r with
  | error fault => rfl
  | ok outcome =>
    cases l.mapM f with
    | error fault => rfl
    | ok outcomes => cases outcome <;> rfl

/-- Without its defective rules a list has the same engagements, and fails as it failed before. -/
theorem map_engaged_mapM_filter (l : List AppliedRule) :
    ((l.filter fun r => ¬ r.IsDefective c t).mapM (Engagement.make c t)).map engaged =
      (l.mapM (Engagement.make c t)).map engaged := by
  induction l with
  | nil => rfl
  | cons r l ih =>
    by_cases hr : r.IsDefective c t
    · rw [List.filter_cons_of_neg (by simpa using hr), ih, map_engaged_mapM_cons]
      obtain ⟨o, defect⟩ := hr
      rw [Engagement.make_eq_omission.mpr defect]
      cases l.mapM (Engagement.make c t) with
      | error fault => rfl
      | ok outcomes => rfl
    · rw [List.filter_cons_of_pos (by simpa using hr), map_engaged_mapM_cons, map_engaged_mapM_cons, ih]

theorem map_engagements_make (partId : String) (rules : List AppliedRule) :
    (make c t partId rules).map (·.engagements) =
      (((rules.filter (·.appliesTo partId)).mapM (Engagement.make c t)).map engaged).map
        fun es => es.mergeSort Engagement.notAfter := by
  rw [make]
  cases (rules.filter (·.appliesTo partId)).mapM (Engagement.make c t) with
  | error fault => rfl
  | ok outcomes => rfl

theorem map_engagements_make_filter (partId : String) (rules : List AppliedRule) :
    (make c t partId (rules.filter fun r => ¬ r.IsDefective c t)).map (·.engagements) =
      (make c t partId rules).map (·.engagements) := by
  rw [map_engagements_make, map_engagements_make, List.filter_comm, map_engaged_mapM_filter]

end Roster

/-- The voice of a part hangs on the engagements of its rules, whichever rules were left out. -/
theorem Voice.map_fst_make_of_engagements {c c' : Catalog} {rules rules' : List AppliedRule}
    (same : (Roster.make c t part.id rules).map (·.engagements) =
      (Roster.make c' t part.id rules').map (·.engagements)) :
    (Voice.make c t rules part).map Prod.fst = (Voice.make c' t rules' part).map Prod.fst := by
  have through_engagements (c : Catalog) (rules : List AppliedRule) :
      (Voice.make c t rules part).map Prod.fst =
        (Failure.ofNumber ((Roster.make c t part.id rules).map (·.engagements))).bind fun es =>
          ((es.flatMap (·.performances t)).foldlM (Score.perform t part) .empty).map fun score =>
            ⟨part, score.inOrder⟩ := by
    rw [Voice.make]
    cases Roster.make c t part.id rules with
    | error fault => rfl
    | ok roster =>
      simp only [Failure.ofNumber_ok, Except.map, bind, Except.bind]
      cases (roster.engagements.flatMap (·.performances t)).foldlM (Score.perform t part) .empty with
      | error f => rfl
      | ok score => rfl
  rw [through_engagements, through_engagements, same]

/-- Each rule that applies to a part is engaged for it or told, and nothing else is. -/
theorem Roster.told_of_make {partId : String} {roster : Roster}
    (h : Roster.make c t partId rules = .ok roster) :
    (∀ o, o ∈ roster.omissions ↔ ∃ r ∈ rules, r.appliesTo partId = true ∧ r.Defect c t o) ∧
    ∀ r ∈ rules, r.appliesTo partId = true →
      (∃ e ∈ roster.engagements, e.applied = r) ∨ ∃ o ∈ roster.omissions, r.Defect c t o := by
  obtain ⟨outcomes, houtcomes, rfl⟩ := make_eq_ok.mp h
  constructor
  · intro o
    rw [mem_omitted]
    constructor
    · intro ho
      obtain ⟨r, hr, made⟩ := exists_of_mem_mapM houtcomes ho
      obtain ⟨hr, applies⟩ := List.mem_filter.mp hr
      exact ⟨r, hr, applies, Engagement.make_eq_omission.mp made⟩
    · rintro ⟨r, hr, applies, defect⟩
      obtain ⟨outcome, ho, made⟩ := exists_mem_of_mapM houtcomes (List.mem_filter.mpr ⟨hr, applies⟩)
      rw [Engagement.make_eq_omission.mpr defect] at made
      rwa [Except.ok.inj made]
  · intro r hr applies
    obtain ⟨outcome, ho, made⟩ := exists_mem_of_mapM houtcomes (List.mem_filter.mpr ⟨hr, applies⟩)
    cases outcome with
    | ok e =>
      have engaged : e ∈ (engaged outcomes).mergeSort Engagement.notAfter :=
        List.mem_mergeSort.mpr (mem_engaged.mpr ho)
      exact .inl ⟨e, engaged, (Engagement.span_of_make made).1⟩
    | error o => exact .inr ⟨o, mem_omitted.mpr ho, Engagement.make_eq_omission.mp made⟩

/-! ### Arrangements -/

variable {p : Progression} {parts : List Part} {a : Arrangement}

theorem Arrangement.map_voices_make_sound (p : Progression) (parts : List Part)
    (rules : List AppliedRule) (c : Catalog) :
    (make p parts ((BindingSet.ofList rules).toList.filter fun r =>
        ¬ r.IsDefective c (.ofProgression p)) c).map (·.voices) =
      (make p parts rules c).map (·.voices) := by
  have distinct := BindingSet.nodup_ofList rules
  rw [map_voices_make, map_voices_make,
    BindingSet.toList_ofList_of_nodup (distinct.sublist (List.filter_sublist.map _))]
  refine mapM_congr fun part _ => ?_
  exact Voice.map_fst_make_of_engagements (Roster.map_engagements_make_filter part.id _)

/-- The roster of each part that is heard. -/
theorem Arrangement.roster_of_make (h : make p parts rules c = .ok a) {part : Part} (hp : part ∈ parts)
    (heard : part.muted = false) :
    ∃ roster, Roster.make c (.ofProgression p) part.id (BindingSet.ofList rules).toList = .ok roster ∧
      ∀ o ∈ roster.omissions, o.message ∈ a.diagnostics := by
  obtain ⟨results, hresults, rfl⟩ := make_eq_ok.mp h
  obtain ⟨⟨v, omissions⟩, hv, made⟩ := exists_mem_of_mapM hresults
    (List.mem_filter.mpr ⟨hp, by simp [heard]⟩)
  obtain ⟨outcomes, cs, notes, houtcomes, -, -, -, rfl⟩ := Voice.make_eq_ok.mp made
  refine ⟨_, Roster.make_eq_ok.mpr ⟨outcomes, houtcomes, rfl⟩, fun o ho => ?_⟩
  rw [List.mem_eraseDups]
  exact List.mem_map_of_mem (List.mem_flatMap.mpr ⟨_, hv, ho⟩)

theorem Arrangement.mem_diagnostics (h : make p parts rules c = .ok a) (m : String) :
    m ∈ a.diagnostics ↔ ∃ r ∈ (BindingSet.ofList rules).toList, ∃ o,
      r.Defect c (.ofProgression p) o ∧ o.message = m ∧
        ∃ part ∈ parts, part.muted = false ∧ r.appliesTo part.id = true := by
  constructor
  · intro hm
    obtain ⟨results, hresults, rfl⟩ := make_eq_ok.mp h
    obtain ⟨o, ho, rfl⟩ := List.mem_map.mp (List.mem_eraseDups.mp hm)
    obtain ⟨⟨v, omissions⟩, hv, ho⟩ := List.mem_flatMap.mp ho
    obtain ⟨part, hpart, made⟩ := exists_of_mem_mapM hresults hv
    obtain ⟨hpart, heard⟩ := List.mem_filter.mp hpart
    obtain ⟨outcomes, cs, notes, houtcomes, -, -, -, rfl⟩ := Voice.make_eq_ok.mp made
    have told := (Roster.told_of_make (Roster.make_eq_ok.mpr ⟨outcomes, houtcomes, rfl⟩)).1
    obtain ⟨r, hr, applies, defect⟩ := (told o).mp ho
    exact ⟨r, hr, o, defect, rfl, part, hpart, by simpa using heard, applies⟩
  · rintro ⟨r, hr, o, defect, rfl, part, hpart, heard, applies⟩
    obtain ⟨roster, made, told⟩ := roster_of_make h hpart heard
    exact told o (((Roster.told_of_make made).1 o).mpr ⟨r, hr, applies, defect⟩)

theorem Arrangement.diagnostics_eq_nil_iff (h : make p parts rules c = .ok a) :
    a.diagnostics = [] ↔ ∀ r ∈ (BindingSet.ofList rules).toList, r.IsDefective c (.ofProgression p) →
      ∀ part ∈ parts, part.muted = false → r.appliesTo part.id = false := by
  rw [List.eq_nil_iff_forall_not_mem]
  constructor
  · rintro silent r hr ⟨o, defect⟩ part hpart heard
    by_contra applies
    have told := (mem_diagnostics h o.message).mpr
      ⟨r, hr, o, defect, rfl, part, hpart, heard, by simpa using applies⟩
    exact silent o.message told
  · intro inapplicable m hm
    obtain ⟨r, hr, o, defect, -, part, hpart, heard, applies⟩ := (mem_diagnostics h m).mp hm
    rw [inapplicable r hr ⟨o, defect⟩ part hpart heard] at applies
    cases applies

/-- Without its defective rules a set of rules gives the same voices, and there is nothing to tell. -/
theorem Arrangement.exists_make_sound (h : make p parts rules c = .ok a) :
    ∃ b, make p parts ((BindingSet.ofList rules).toList.filter fun r =>
        ¬ r.IsDefective c (.ofProgression p)) c = .ok b ∧
      b.voices = a.voices ∧ b.diagnostics = [] := by
  have same := map_voices_make_sound p parts rules c
  rw [h] at same
  obtain ⟨b, hb, voices⟩ := map_eq_ok.mp same
  refine ⟨b, hb, voices, (diagnostics_eq_nil_iff hb).mpr fun r hr defective => ?_⟩
  rw [BindingSet.toList_ofList_of_nodup
    ((BindingSet.nodup_ofList rules).sublist (List.filter_sublist.map _))] at hr
  have sound : ¬ r.IsDefective c (.ofProgression p) := by simpa using (List.mem_filter.mp hr).2
  exact absurd defective sound

theorem Arrangement.nodup_diagnostics (h : make p parts rules c = .ok a) : a.diagnostics.Nodup := by
  obtain ⟨results, -, rfl⟩ := make_eq_ok.mp h
  exact nodup_eraseDups _

/-- A bound rule that is defective has no effect on any voice; the messages are those of the defective
rules that apply to a part that is heard, each once. No rule that applies to such a part is lost in
silence. -/
theorem Arrangement.defects_told (h : make p parts rules c = .ok a) :
    let t := Timeline.ofProgression p
    let bound := (BindingSet.ofList rules).toList
    (∃ b, make p parts (bound.filter fun r => ¬ r.IsDefective c t) c = .ok b ∧
      b.voices = a.voices ∧ b.diagnostics = []) ∧
    a.diagnostics.Nodup ∧
    (∀ m, m ∈ a.diagnostics ↔ ∃ r ∈ bound, ∃ o, r.Defect c t o ∧ o.message = m ∧
      ∃ part ∈ parts, part.muted = false ∧ r.appliesTo part.id = true) ∧
    (a.diagnostics = [] ↔ ∀ r ∈ bound, r.IsDefective c t →
      ∀ part ∈ parts, part.muted = false → r.appliesTo part.id = false) ∧
    ∀ part ∈ parts, part.muted = false → ∃ roster, Roster.make c t part.id bound = .ok roster ∧
      ∀ r ∈ bound, r.appliesTo part.id = true →
        (∃ e ∈ roster.engagements, e.applied = r) ∨
          ∃ o, r.Defect c t o ∧ o.message ∈ a.diagnostics := by
  intro t bound
  refine ⟨exists_make_sound h, nodup_diagnostics h, mem_diagnostics h, diagnostics_eq_nil_iff h, ?_⟩
  intro part hpart heard
  obtain ⟨roster, made, messages⟩ := roster_of_make h hpart heard
  refine ⟨roster, made, fun r hr applies => ?_⟩
  rcases (Roster.told_of_make made).2 r hr applies with engaged | ⟨o, ho, defect⟩
  · exact .inl engaged
  · exact .inr ⟨o, defect, messages o ho⟩

/-! ### Four rules that are left out -/

def gapRule : RichRule := { leapRule with id := "gap", riffId := some "gone" }

def gapCatalog : Catalog := { leapCatalog with richRules := [leapRule, gapRule] }

/-- Two rules that are played, and one of each kind that is not. The last one is left out too, but only
for a part that is not heard. -/
def gapRules : List AppliedRule :=
  [lowLeap, ⟨"lost", .global, none, none, none⟩, ⟨"gap", .chord 2, some "bass", none, none⟩, highLeap,
    ⟨"leap", .bar 7, none, none, none⟩, ⟨"leap", .chord 9, some "pad", none, none⟩]

def gapArrangement : Arrangement :=
  ⟨.ofProgression threeBars, [leapVoice],
    ["Unknown rule 'lost' skipped", "Rule 'gap' references unknown riff 'gone', skipped",
      "Rule 'leap' is bound to a bar slot outside the timeline"]⟩

theorem voice_gap : Voice.make gapCatalog (.ofProgression threeBars) gapRules bassPart =
    .ok (leapVoice, [.unknownRule "lost", .unknownRiff "gap" (some "gone"),
      .outsideTimeline "leap" (.bar 7)]) := by
  obtain ⟨outcomes, cs, notes, houtcomes, hcs, hnotes, hv, -⟩ := Voice.make_eq_ok.mp voice_leap
  have two : [lowLeap, highLeap].mapM (Engagement.make leapCatalog (.ofProgression threeBars)) =
      .ok [.ok lowEngagement, .ok highEngagement] := rfl
  have heard : [lowLeap, highLeap].filter (·.appliesTo bassPart.id) = [lowLeap, highLeap] := rfl
  rw [heard, two] at houtcomes
  obtain rfl := Except.ok.inj houtcomes
  have five : (gapRules.filter (·.appliesTo bassPart.id)).mapM
      (Engagement.make gapCatalog (.ofProgression threeBars)) =
      .ok [.ok lowEngagement, .error (.unknownRule "lost"), .error (.unknownRiff "gap" (some "gone")),
        .ok highEngagement, .error (.outsideTimeline "leap" (.bar 7))] := rfl
  exact Voice.make_eq_ok.mpr ⟨_, cs, notes, five, hcs, hnotes, hv, rfl⟩

theorem make_gap :
    Arrangement.make threeBars [bassPart, silentPart] gapRules gapCatalog = .ok gapArrangement := by
  have bound : (BindingSet.ofList gapRules).toList = gapRules :=
    BindingSet.toList_ofList_of_nodup (by decide)
  have voices := mapM_eq_ok.mpr (.cons voice_gap .nil)
  rw [← bound] at voices
  exact Arrangement.make_eq_ok.mpr ⟨_, voices, rfl⟩

theorem Arrangement.gap_defects_told :
    make threeBars [bassPart, silentPart] gapRules gapCatalog = .ok gapArrangement ∧
    ∃ b, make threeBars [bassPart, silentPart] [lowLeap, highLeap] gapCatalog = .ok b ∧
      b.voices = [leapVoice] ∧ b.diagnostics = [] := by
  obtain ⟨⟨b, hb, voices, silent⟩, -⟩ := defects_told make_gap
  have sound : (BindingSet.ofList gapRules).toList.filter
      (fun r => ¬ r.IsDefective gapCatalog (.ofProgression threeBars)) = [lowLeap, highLeap] := by
    rw [BindingSet.toList_ofList_of_nodup (by decide)]
    decide
  rw [sound] at hb
  exact ⟨make_gap, b, hb, voices, silent⟩

end Ostinato
