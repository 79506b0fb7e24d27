import Ostinato.Proofs.BassLine.Conflicts
import Ostinato.Proofs.BassLine.Shape

/-!
# Rules that matter

Of the rules that a selection enables, a line depends on the anchors in their order and on the preferences
in their order. Other rules, and the places of anchors among preferences, have no effect.
-/

namespace Ostinato.BassLine

variable {s : Selection} {rules : List Rule} {g h : RuleGroups}

/-! ### Verdicts -/

/-- Where a rule is enabled, the verdict is the one on the selection and its chart. -/
theorem judge_of_enabled (chart : Option Chart) (enabled : ∃ r ∈ rules, r.EnabledFor s) :
    judge s chart rules = s.check chart := by
  obtain ⟨r, member, able⟩ := enabled
  have given : rules.isEmpty = false := List.isEmpty_eq_false_iff.mpr (List.ne_nil_of_mem member)
  have active : (s.activeRules rules).isEmpty = false := by
    rw [Selection.activeRules_eq]
    exact List.isEmpty_eq_false_iff.mpr
      (List.ne_nil_of_mem (List.mem_filter.mpr ⟨member, decide_eq_true able⟩))
  simp only [judge, given, active, Bool.and_false, Bool.false_eq_true, if_false]

/-! ### Setting down -/

theorem settle_congr (anchors : g.anchors = h.anchors) (preferences : g.preferences = h.preferences)
    (p : Place) (drawn : Option String) : settle g p drawn = settle h p drawn := by
  have anchors_fire : (g.on p).anchors = (h.on p).anchors := by
    rw [RuleGroups.anchors_on, anchors, RuleGroups.anchors_on]
  have preferences_fire : (g.on p).preferences = (h.on p).preferences := by
    rw [RuleGroups.preferences_on, preferences, RuleGroups.preferences_on]
  simp only [settle, RuleGroups.anchorOn, RuleGroups.decidingOn, duration_eq, anchors_fire,
    preferences_fire]

theorem setDown_congr (anchors : g.anchors = h.anchors) (preferences : g.preferences = h.preferences)
    (conflicts : g.conflicts = h.conflicts) (verdict : Verdict) (bars : List String)
    (tones : List (Option String)) : setDown g verdict bars tones = setDown h verdict bars tones := by
  have each : settle g = settle h := by
    funext p drawn
    exact settle_congr anchors preferences p drawn
  simp only [setDown, each, conflicts]

/-! ### Lines -/

/-- Two lists of rules make the same line, with the same draws, if the selection enables a rule of each, and
enables the same anchors in the same order and the same preferences in the same order. -/
theorem make_eq_of_same_roles {s : Selection} {rules rules' : List Rule} (chart : Option Chart)
    (enabled : ∃ r ∈ rules, r.EnabledFor s) (enabled' : ∃ r ∈ rules', r.EnabledFor s)
    (anchors : (rules.filter fun r => r.role = .anchor ∧ r.EnabledFor s) =
      rules'.filter fun r => r.role = .anchor ∧ r.EnabledFor s)
    (preferences : (rules.filter fun r => r.role = .preference ∧ r.EnabledFor s) =
      rules'.filter fun r => r.role = .preference ∧ r.EnabledFor s) :
    make s chart rules = make s chart rules' := by
  have verdict : judge s chart rules = judge s chart rules' := by
    rw [judge_of_enabled chart enabled, judge_of_enabled chart enabled']
  have same_anchors : (s.groups rules).anchors = (s.groups rules').anchors := by
    rw [Selection.anchors_groups, Selection.anchors_groups]
    exact anchors
  have same_preferences : (s.groups rules).preferences = (s.groups rules').preferences :=
    (RuleGroups.ofRole_activeRules .preference s rules).trans
      (preferences.trans (RuleGroups.ofRole_activeRules .preference s rules').symm)
  have same_conflicts : (s.groups rules).conflicts = (s.groups rules').conflicts := by
    rw [Selection.conflicts_groups, Selection.conflicts_groups, same_anchors]
  cases valid : (judge s chart rules).isValid with
  | false => rw [make_of_invalid valid, make_of_invalid (verdict ▸ valid), verdict]
  | true =>
    obtain ⟨c, rfl, -⟩ := exists_chart_of_valid valid
    have set_down := funext (setDown_congr same_anchors same_preferences same_conflicts
      (judge s (some c) rules) c.bars.val)
    rw [make_of_valid valid, make_of_valid (verdict ▸ valid), ← verdict,
      drawnTones_congr same_preferences, set_down]

/-- The anchors and the preference of two bars, apart from each other and among other rules. -/
def tonesAmongOthers : List Rule :=
  [toneRule "land" 1 .anchor .beat1 "play root",
    { toneRule "even" 1 .constraint .always "quarter notes only" with affects := .rhythm },
    toneRule "reach" 2 .anchor .chordChange "play fifth",
    toneRule "slide" 1 .embellishment .beat3 "slide into the root",
    { toneRule "solo" 1 .anchor .always "play fifth" with part := .lead },
    toneRule "lean" 1 .preference .beat3 "prefer the 5th or the root"]

theorem make_tonesAmongOthers :
    tonesOfTwoBars ≠ tonesAmongOthers ∧
      make player (some twoBars) tonesOfTwoBars = make player (some twoBars) tonesAmongOthers :=
  ⟨by decide +kernel, make_eq_of_same_roles (some twoBars) (by decide +kernel) (by decide +kernel)
    (by decide +kernel) (by decide +kernel)⟩

end Ostinato.BassLine
