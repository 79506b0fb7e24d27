import Mathlib.Data.List.Infix
import Mathlib.Data.Set.Finite.Basic
import Mathlib.Order.Preorder.Finite
import Ostinato.LeadLine

/-!
# Scales for a lead line

Of the scales that constraints name, a lead line gets those whose names are not inside the name of another
one. What a name is dropped for may be dropped itself, but of all names around it the longest one stays.
-/

namespace Ostinato

/-! ### Sublists -/

/-- A sublist that has each of its members as often as the list has them keeps them by membership alone. -/
theorem eq_filter_of_count_le {α : Type} [DecidableEq α] {kept l : List α} (h : kept.Sublist l)
    (full : ∀ a ∈ kept, l.count a ≤ kept.count a) : kept = l.filter fun a => decide (a ∈ kept) := by
  have inside : kept.Sublist (l.filter fun a => decide (a ∈ kept)) := by
    have all : kept.filter (fun a => decide (a ∈ kept)) = kept :=
      List.filter_eq_self.mpr fun a ha => decide_eq_true ha
    have restricted := h.filter fun a => decide (a ∈ kept)
    rwa [all] at restricted
  have perm : kept.Perm (l.filter fun a => decide (a ∈ kept)) := by
    refine List.perm_iff_count.mpr fun a => ?_
    by_cases ha : a ∈ kept
    · have all : (l.filter fun a => decide (a ∈ kept)).count a = l.count a :=
        List.count_filter (decide_eq_true ha)
      rw [all]
      exact Nat.le_antisymm (h.count_le a) (full a ha)
    · rw [List.count_eq_zero.mpr ha, List.count_eq_zero.mpr]
      intro member
      exact ha (of_decide_eq_true (List.mem_filter.mp member).2)
  exact inside.eq_of_length perm.length_eq

/-! ### Proper pieces -/

namespace Text

/-- A piece of a text that is not all of it. -/
def ProperPiece (piece whole : String) : Prop := piece ≠ whole ∧ piece.toList <:+: whole.toList

theorem ProperPiece.length_lt {piece whole : String} (h : ProperPiece piece whole) :
    piece.length < whole.length := by
  obtain ⟨differs, inside⟩ := h
  have shorter : piece.toList.length ≤ whole.toList.length := inside.length_le
  have unequal : piece.toList.length ≠ whole.toList.length := by
    intro same
    exact differs (String.toList_inj.mp (inside.eq_of_length same))
  rw [String.length_toList, String.length_toList] at shorter unequal
  omega

theorem ProperPiece.trans_piece {a b c : String} (h : ProperPiece a b) (k : b.toList <:+: c.toList) :
    ProperPiece a c := by
  refine ⟨?_, h.2.trans k⟩
  intro same
  subst same
  exact h.1 (String.toList_inj.mp (List.infix_antisymm h.2 k))

end Text

/-! ### Named scales -/

namespace Scale

/-- Some constraint among the rules has the name of the scale in its action. -/
def NamedBy (s : Scale) (rules : List Rule) : Prop :=
  ∃ r ∈ rules, r.role = .constraint ∧ s.spokenName.toList <:+: r.action.toList

/-- A named scale whose name is not inside the name of another one of them. -/
def Outermost (s : Scale) (rules : List Rule) (scales : List Scale) : Prop :=
  s.NamedBy rules ∧
    ∀ t ∈ scales, t.NamedBy rules → ¬Text.ProperPiece s.spokenName t.spokenName

end Scale

variable {rules : List Rule} {scales found : List Scale} {s : Scale}

theorem namedByConstraint_iff : namedByConstraint rules s = true ↔ s.NamedBy rules := by
  simp only [namedByConstraint, RuleGroups.ofRole, Rule.mentions, List.any_eq_true, List.mem_filter,
    beq_iff_eq, Text.isPiece_iff, Scale.NamedBy, and_assoc]

theorem mem_scalesForRules :
    s ∈ scalesForRules rules scales ↔ s ∈ scales ∧ s.Outermost rules scales := by
  simp only [scalesForRules, List.mem_filter, namedByConstraint_iff, Bool.not_eq_true', List.any_eq_false,
    Bool.and_eq_true, bne_iff_ne, Text.isPiece_iff, Scale.Outermost, Text.ProperPiece, and_assoc,
    and_imp]

theorem scalesForRules_sublist (rules : List Rule) (scales : List Scale) :
    (scalesForRules rules scales).Sublist scales :=
  List.filter_sublist.trans List.filter_sublist

/-- A scale that is kept is kept as often as it is given. -/
theorem count_scalesForRules (h : s ∈ scalesForRules rules scales) :
    (scalesForRules rules scales).count s = scales.count s := by
  obtain ⟨first, alone⟩ := List.mem_filter.mp h
  obtain ⟨-, named⟩ := List.mem_filter.mp first
  calc (scalesForRules rules scales).count s
      = (scales.filter (namedByConstraint rules)).count s := List.count_filter alone
    _ = scales.count s := List.count_filter named

theorem exists_outermost (listed : s ∈ scales) (named : s.NamedBy rules) :
    ∃ t ∈ scales, t.Outermost rules scales ∧ s.spokenName.toList <:+: t.spokenName.toList := by
  -- among the names around that of `s`, the longest one is in no other name
  let around : Set Scale :=
    {t | t ∈ scales ∧ t.NamedBy rules ∧ s.spokenName.toList <:+: t.spokenName.toList}
  have finite : around.Finite := (List.finite_toSet scales).subset fun t ht => ht.1
  have here : s ∈ around := ⟨listed, named, List.infix_refl _⟩
  obtain ⟨t, ⟨ht, hnamed, inside⟩, longest⟩ :=
    finite.exists_maximalFor (fun t => t.spokenName.length) around ⟨s, here⟩
  refine ⟨t, ht, ⟨hnamed, ?_⟩, inside⟩
  intro u hu named_u part
  have longer := part.length_lt
  have bound := longest ⟨hu, named_u, inside.trans part.2⟩ longer.le
  exact absurd longer (Nat.not_lt.mpr bound)

/-! ### Lists of outermost names -/

/-- Some of the scales in their order: only such as rules name, none of them inside another one, and each
scale that rules name inside one of them. One is left out only where its name is inside another one. -/
structure OutermostNames (rules : List Rule) (scales found : List Scale) : Prop where
  inOrder : found.Sublist scales
  named : ∀ s ∈ found, s.NamedBy rules
  apart : ∀ s ∈ found, ∀ t ∈ found, ¬Text.ProperPiece s.spokenName t.spokenName
  covered : ∀ s ∈ scales, s.NamedBy rules →
    ∃ t ∈ found, s.spokenName.toList <:+: t.spokenName.toList
  leftOut : ∀ s ∈ scales, s.NamedBy rules → found.count s < scales.count s →
    ∃ t ∈ scales, t.NamedBy rules ∧ Text.ProperPiece s.spokenName t.spokenName

theorem outermostNames_scalesForRules (rules : List Rule) (scales : List Scale) :
    OutermostNames rules scales (scalesForRules rules scales) where
  inOrder := scalesForRules_sublist rules scales
  named s hs := (mem_scalesForRules.mp hs).2.1
  apart s hs t ht := by
    obtain ⟨listed, named, -⟩ := mem_scalesForRules.mp ht
    exact (mem_scalesForRules.mp hs).2.2 t listed named
  covered s listed named := by
    obtain ⟨t, ht, outer, inside⟩ := exists_outermost listed named
    exact ⟨t, mem_scalesForRules.mpr ⟨ht, outer⟩, inside⟩
  leftOut s listed named fewer := by
    by_contra free
    have outer : s.Outermost rules scales :=
      ⟨named, fun t ht hnamed part => free ⟨t, ht, hnamed, part⟩⟩
    have kept := mem_scalesForRules.mpr ⟨listed, outer⟩
    exact absurd (count_scalesForRules kept) fewer.ne

namespace OutermostNames

theorem count_eq (h : OutermostNames rules scales found) (listed : s ∈ scales)
    (outer : s.Outermost rules scales) : found.count s = scales.count s := by
  apply Nat.le_antisymm (h.inOrder.count_le s)
  by_contra fewer
  obtain ⟨t, ht, named, part⟩ := h.leftOut s listed outer.1 (Nat.lt_of_not_le fewer)
  exact outer.2 t ht named part

theorem mem_iff (h : OutermostNames rules scales found) :
    s ∈ found ↔ s ∈ scales ∧ s.Outermost rules scales := by
  constructor
  · intro hs
    refine ⟨h.inOrder.subset hs, h.named s hs, ?_⟩
    intro t ht named part
    -- what stays around the name of `t` is also around that of `s`
    obtain ⟨u, hu, inside⟩ := h.covered t ht named
    exact h.apart s hs u hu (part.trans_piece inside)
  · intro hs
    obtain ⟨listed, outer⟩ := hs
    rw [← List.count_pos_iff, h.count_eq listed outer]
    exact List.count_pos_iff.mpr listed

theorem eq_filter (h : OutermostNames rules scales found) :
    found = scales.filter fun s => decide (s ∈ found) := by
  apply eq_filter_of_count_le h.inOrder
  intro s hs
  obtain ⟨listed, outer⟩ := h.mem_iff.mp hs
  exact (h.count_eq listed outer).ge

theorem unique {found' : List Scale} (h : OutermostNames rules scales found)
    (h' : OutermostNames rules scales found') : found = found' := by
  have same : ∀ s ∈ scales, decide (s ∈ found) = decide (s ∈ found') := by
    intro s _
    rw [decide_eq_decide, h.mem_iff, h'.mem_iff]
  rw [h.eq_filter, h'.eq_filter]
  exact List.filter_congr same

end OutermostNames

/-- The scales for rules are the one list that keeps the outermost names: among equal names it keeps all. -/
theorem scalesForRules_eq_iff (rules : List Rule) (scales found : List Scale) :
    scalesForRules rules scales = found ↔ OutermostNames rules scales found := by
  constructor
  · intro answer
    rw [← answer]
    exact outermostNames_scalesForRules rules scales
  · exact (outermostNames_scalesForRules rules scales).unique

-- of a chain of names only the last one stays; the empty name is inside of all
example :
    let blues : Rule :=
      ⟨"blues", .lead, [], 1, none, .constraint, .targetTone, .always, "use minor blues scale", none⟩
    scalesForRules [blues] [⟨"", []⟩, ⟨"minor", []⟩, ⟨"minor-blues", []⟩, ⟨"major", []⟩] =
      [⟨"minor-blues", []⟩] := by
  decide +kernel

end Ostinato
