import Mathlib.Tactic.SplitIfs
import Ostinato.BassLine

/-!
# Accepted selections

When a selection is complete and its chart can be played, and when there are rules to play it by.
-/

namespace Ostinato

theorem Verdict.isValid_addError (v : Verdict) (message : String) : (v.addError message).isValid = false := by
  simp [isValid, addError]

namespace Selection

variable {s : Selection} {chart : Option Chart}

theorem chartErrors_eq_nil_iff :
    s.chartErrors chart = [] ↔ ∃ c, chart = some c ∧ s.progressionId = some c.id ∧ c.id ≠ "" := by
  unfold chartErrors
  cases s.progressionId with
  | none => simp
  | some id =>
    cases chart with
    | none => simp
    | some c =>
      dsimp only
      split_ifs with nameless same
      · simp only [Option.some.injEq, exists_eq_left', false_iff, not_and]
        rintro rfl named
        exact named nameless
      · subst same
        simp [nameless]
      · simp [Ne.symm same]

theorem rootlessErrors_eq_nil_iff :
    rootlessErrors chart = [] ↔
      ∀ c ∈ chart, ∀ symbol ∈ c.bars.val, ∃ parts, ChordSymbol.read? symbol = some parts := by
  cases chart with
  | none => simp [rootlessErrors]
  | some c => simp [rootlessErrors, rootless, Option.ne_none_iff_exists']

/-- A selection is accepted if each choice is made, the chart is the one chosen, and each of its chords has
a root. -/
theorem check_isValid_iff :
    (s.check chart).isValid = true ↔
      (∃ genre, s.genre = some genre ∧ genre ≠ "") ∧ (∃ level, s.level = some level) ∧
        (∃ c, chart = some c ∧ s.progressionId = some c.id ∧ c.id ≠ "") ∧
        (∃ string, s.rootString = some string) ∧
        ∀ c ∈ chart, ∀ symbol ∈ c.bars.val, ∃ parts, ChordSymbol.read? symbol = some parts := by
  rw [Verdict.isValid, List.isEmpty_iff, check]
  simp only [List.append_eq_nil_iff, chartErrors_eq_nil_iff, rootlessErrors_eq_nil_iff, and_assoc]
  cases s.genre <;> cases s.level <;> cases s.rootString <;> simp

end Selection

namespace BassLine

variable {s : Selection} {chart : Option Chart} {rules : List Rule}

theorem judge_isValid_iff :
    (judge s chart rules).isValid = true ↔
      (s.check chart).isValid = true ∧ rules ≠ [] ∧ s.activeRules rules ≠ [] := by
  unfold judge
  cases rules with
  | nil => simp [Verdict.isValid_addError]
  | cons r rest =>
    simp only [List.isEmpty_cons, Bool.false_eq_true, if_false, ne_eq, reduceCtorEq, not_false_eq_true,
      true_and]
    cases valid : (s.check chart).isValid with
    | false => simp [valid]
    | true =>
      cases active : s.activeRules (r :: rest) with
      | nil => simp [Verdict.isValid_addError]
      | cons first others => simp [valid]

/-- A line is made only where a chart is given, and each of its bars has a chord. -/
theorem exists_chart_of_valid (valid : (judge s chart rules).isValid = true) :
    ∃ c, chart = some c ∧ "" ∉ c.bars.val := by
  obtain ⟨-, -, ⟨c, rfl, -⟩, -, rooted⟩ :=
    Selection.check_isValid_iff.mp (judge_isValid_iff.mp valid).1
  refine ⟨c, rfl, fun nameless => ?_⟩
  obtain ⟨parts, read⟩ := rooted c rfl "" nameless
  have unread : ChordSymbol.read? "" = none := by decide +kernel
  rw [unread] at read
  cases read

end BassLine

end Ostinato
