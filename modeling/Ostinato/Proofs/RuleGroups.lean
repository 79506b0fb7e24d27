import Mathlib.Data.List.Perm.Basic
import Ostinato.RuleGroups

/-!
# Enabled and shadowed rules

The rules that a selection enables, role by role, and the rules that are left when each anchor goes that an
earlier one of the same trigger and aspect shadows. The first anchor of each trigger and aspect stays.
-/

namespace Ostinato

/-! ### Enabled rules -/

/-- Whether a rule is for the part, the genre and the level of a selection. -/
def Rule.EnabledFor (r : Rule) (s : Selection) : Prop :=
  r.part = s.part ∧ (∃ genre ∈ s.genre, genre ∈ r.genreTags) ∧
    ∃ level ∈ s.level, r.minLevel ≤ level ∧ ∀ greatest ∈ r.maxLevel, level ≤ greatest

instance (r : Rule) (s : Selection) : Decidable (r.EnabledFor s) :=
  inferInstanceAs (Decidable (_ ∧ _ ∧ _))

theorem Rule.coversLevel_iff {r : Rule} {level : Int} :
    r.coversLevel level = true ↔ r.minLevel ≤ level ∧ ∀ greatest ∈ r.maxLevel, level ≤ greatest := by
  rw [coversLevel]
  cases r.maxLevel <;> simp

theorem Rule.appliesTo_iff {r : Rule} {s : Selection} {level : Int} (h : s.level = some level) :
    r.appliesTo s level = true ↔ r.EnabledFor s := by
  rw [appliesTo, EnabledFor, h]
  cases s.genre <;> simp [coversLevel_iff, and_assoc]

theorem Selection.activeRules_eq (s : Selection) (rules : List Rule) :
    s.activeRules rules = rules.filter fun r => decide (r.EnabledFor s) := by
  unfold activeRules
  cases h : s.level with
  | none => simp [Rule.EnabledFor, h]
  | some level =>
    refine List.filter_congr fun r _ => ?_
    rw [Bool.eq_iff_iff, Rule.appliesTo_iff h, decide_eq_true_iff]

theorem RuleGroups.ofRole_activeRules (role : Role) (s : Selection) (rules : List Rule) :
    ofRole role (s.activeRules rules) =
      rules.filter fun r => decide (r.role = role ∧ r.EnabledFor s) := by
  rw [ofRole, Selection.activeRules_eq, List.filter_filter]
  refine List.filter_congr fun r _ => ?_
  rw [Bool.decide_and, beq_eq_decide]

/-- The groups of the rules that a selection enables. -/
def Selection.groups (s : Selection) (rules : List Rule) : RuleGroups := .make (s.activeRules rules)

namespace AnchorConflict

/-! ### Shadowed rules -/

/-- Whether two anchors have one trigger and decide the same thing. -/
def rivals (a b : Rule) : Bool := a.trigger == b.trigger && a.affects == b.affects

theorem after_cons (seen : List Rule) (r : Rule) (rest : List Rule) :
    after seen (r :: rest) = match seen.find? (rivals · r) with
      | some kept => ⟨kept, r⟩ :: after seen rest
      | none => after (seen ++ [r]) rest := rfl

/-- The rules that stay when the shadowed ones go; `contends` tells the rules that compete. -/
def unshadowed (contends : Rule → Bool) (seen : List Rule) : List Rule → List Rule
  | [] => []
  | r :: rest =>
    if contends r then
      match seen.find? (rivals · r) with
      | some _ => unshadowed contends seen rest
      | none => r :: unshadowed contends (seen ++ [r]) rest
    else r :: unshadowed contends seen rest

variable {contends : Rule → Bool}

theorem unshadowed_cons_of_shadowed {seen rest : List Rule} {r kept : Rule} (h : contends r = true)
    (found : seen.find? (rivals · r) = some kept) :
    unshadowed contends seen (r :: rest) = unshadowed contends seen rest := by
  rw [unshadowed, if_pos h, found]

theorem unshadowed_cons_of_first {seen rest : List Rule} {r : Rule} (h : contends r = true)
    (found : seen.find? (rivals · r) = none) :
    unshadowed contends seen (r :: rest) = r :: unshadowed contends (seen ++ [r]) rest := by
  rw [unshadowed, if_pos h, found]

theorem unshadowed_cons_of_apart {seen rest : List Rule} {r : Rule} (h : ¬contends r = true) :
    unshadowed contends seen (r :: rest) = r :: unshadowed contends seen rest := by
  rw [unshadowed, if_neg h]

theorem unshadowed_sublist (seen l : List Rule) : (unshadowed contends seen l).Sublist l := by
  fun_induction unshadowed contends seen l with
  | case1 => exact .slnil
  | case2 seen r rest h kept found ih => exact ih.cons r
  | case3 seen r rest h found ih => exact ih.cons_cons r
  | case4 seen r rest h ih => exact ih.cons_cons r

/-- What goes is what is reported as shadowed, each as often as it is reported. -/
theorem perm_unshadowed (seen l : List Rule) :
    l.Perm (unshadowed contends seen l ++ (after seen (l.filter contends)).map (·.shadowed)) := by
  -- both recursions see the same rules, and a rule goes exactly where a conflict is reported
  fun_induction unshadowed contends seen l with
  | case1 => exact .nil
  | case2 seen r rest h kept found ih =>
    rw [List.filter_cons_of_pos h, after_cons, found]
    exact (ih.cons r).trans List.perm_middle.symm
  | case3 seen r rest h found ih =>
    rw [List.filter_cons_of_pos h, after_cons, found]
    exact ih.cons r
  | case4 seen r rest h ih =>
    rw [List.filter_cons_of_neg h]
    exact ih.cons r

/-- Rules among which are all that compete can be singled out before or after. -/
theorem filter_unshadowed {q : Rule → Bool} (held : ∀ r, contends r = true → q r = true)
    (seen l : List Rule) :
    (unshadowed contends seen l).filter q = unshadowed contends seen (l.filter q) := by
  fun_induction unshadowed contends seen l with
  | case1 => rfl
  | case2 seen r rest h kept found ih =>
    rw [ih, List.filter_cons_of_pos (held r h), unshadowed_cons_of_shadowed h found]
  | case3 seen r rest h found ih =>
    rw [List.filter_cons_of_pos (held r h), ih, List.filter_cons_of_pos (held r h),
      unshadowed_cons_of_first h found]
  | case4 seen r rest h ih =>
    rw [List.filter_cons, List.filter_cons, ih]
    split_ifs with hq
    · rw [unshadowed_cons_of_apart h]
    · rfl

/-- Rules that do not compete all stay. -/
theorem filter_unshadowed_of_apart {q : Rule → Bool} (apart : ∀ r, contends r = true → ¬q r = true)
    (seen l : List Rule) : (unshadowed contends seen l).filter q = l.filter q := by
  fun_induction unshadowed contends seen l with
  | case1 => rfl
  | case2 seen r rest h kept found ih => rw [ih, List.filter_cons_of_neg (apart r h)]
  | case3 seen r rest h found ih =>
    rw [List.filter_cons_of_neg (apart r h), ih, List.filter_cons_of_neg (apart r h)]
  | case4 seen r rest h ih => rw [List.filter_cons, List.filter_cons, ih]

theorem unshadowed_eq_nil_iff (l : List Rule) : unshadowed contends [] l = [] ↔ l = [] := by
  cases l with
  | nil => simp [unshadowed]
  | cons r rest =>
    by_cases h : contends r = true
    · simp [unshadowed_cons_of_first h List.find?_nil]
    · simp [unshadowed_cons_of_apart h]

/-! ### Conflicts -/

theorem rivals_of_mem_after {seen l : List Rule} {k : AnchorConflict} (h : k ∈ after seen l) :
    rivals k.kept k.shadowed = true := by
  fun_induction after seen l with
  | case1 => cases h
  | case2 seen r rest kept found ih =>
    rcases List.mem_cons.mp h with rfl | h
    · have same := List.find?_some found
      exact same
    · exact ih h
  | case3 seen r rest found ih => exact ih h

theorem after_unshadowed {seen l : List Rule} (all : ∀ r ∈ l, contends r = true) :
    after seen (unshadowed contends seen l) = [] := by
  fun_induction unshadowed contends seen l with
  | case1 => rfl
  | case2 seen r rest h kept found ih => exact ih (List.forall_mem_cons.mp all).2
  | case3 seen r rest h found ih =>
    rw [after_cons, found]
    exact ih (List.forall_mem_cons.mp all).2
  | case4 seen r rest h ih => exact absurd (all r List.mem_cons_self) h

/-- A first answer is not lost with the shadowed rules, where each of them that has an answer is shadowed
by a rule that has one. -/
theorem head?_filterMap_unshadowed {β : Type} {answer : Rule → Option β} {seen l : List Rule}
    (all : ∀ r ∈ l, contends r = true)
    (kept : ∀ k ∈ after seen l, (answer k.shadowed).isSome = true → (answer k.kept).isSome = true) :
    ((seen ++ unshadowed contends seen l).filterMap answer).head? =
      ((seen ++ l).filterMap answer).head? := by
  fun_induction unshadowed contends seen l with
  | case1 => rfl
  | case2 seen r rest h first found ih =>
    rw [after_cons, found] at kept
    obtain ⟨answered, kept⟩ := List.forall_mem_cons.mp kept
    rw [ih (List.forall_mem_cons.mp all).2 kept, List.filterMap_append, List.filterMap_append]
    -- an answer of `r` is not the first one: the rule that shadows it stands in `seen`
    cases silent : answer r with
    | none => rw [List.filterMap_cons_none silent]
    | some a =>
      have earlier : seen.filterMap answer ≠ [] := by
        obtain ⟨b, hb⟩ := Option.isSome_iff_exists.mp (answered (by simp [silent]))
        exact List.ne_nil_of_mem (List.mem_filterMap.mpr ⟨first, List.mem_of_find?_eq_some found, hb⟩)
      obtain ⟨b, front, heard⟩ := List.exists_cons_of_ne_nil earlier
      rw [heard, List.cons_append, List.cons_append, List.head?_cons, List.head?_cons]
  | case3 seen r rest h found ih =>
    rw [after_cons, found] at kept
    simpa only [List.append_assoc, List.singleton_append] using
      ih (List.forall_mem_cons.mp all).2 kept
  | case4 seen r rest h ih => exact absurd (all r List.mem_cons_self) h

end AnchorConflict

end Ostinato
