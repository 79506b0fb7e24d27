import Mathlib.Data.List.Induction
import Ostinato.Arrangement
import Ostinato.Proofs.BindingSet

/-!
# Histories of a binding set

A binding set is changed by binding, by unbinding and by dropping the rules of a part. What it holds is
told by the changes alone: each place has the rule of the last change that touches it, and the rules
stand in the order of these changes.
-/

namespace Ostinato

/-! ### Changes -/

inductive BindingChange where
  | bind (a : AppliedRule)
  | unbind (slot : Slot) (partId : Option String)
  | removePart (partId : Option String)
deriving DecidableEq, Repr

namespace BindingChange

def apply (s : BindingSet) : BindingChange → BindingSet
  | bind a => (s.bind a).2
  | unbind slot partId => (s.unbind slot partId).2
  | removePart partId => (s.removePart partId).2

/-- Whether a change decides anew what is bound at a place. -/
def touches (key : Slot × Option String) : BindingChange → Bool
  | bind a => a.key == key
  | unbind slot partId => (slot, partId) == key
  | removePart partId => key.2 == partId

/-- The rule that stands after a change at a place that it touches. -/
def rule? : BindingChange → Option AppliedRule
  | bind a => some a
  | unbind .. => none
  | removePart _ => none

theorem touches_of_rule? {change : BindingChange} {a : AppliedRule} (h : change.rule? = some a) :
    change.touches a.key = true := by
  cases change with
  | bind b =>
    obtain rfl : b = a := Option.some.inj h
    simp [touches]
  | unbind slot partId => cases h
  | removePart partId => cases h

end BindingChange

namespace BindingSet

def run (s : BindingSet) (history : List BindingChange) : BindingSet :=
  history.foldl BindingChange.apply s

/-- What is bound at a place in the end: the rule of the last change that touches it. -/
def lastBound? (history : List BindingChange) (key : Slot × Option String) : Option AppliedRule :=
  (history.reverse.find? fun change => change.touches key).bind BindingChange.rule?

/-- The rules whose places no later change touches, in the order in which they were bound. -/
def survivors : List BindingChange → List AppliedRule
  | [] => []
  | .bind a :: later =>
    if later.any fun change => change.touches a.key then survivors later else a :: survivors later
  | .unbind .. :: later => survivors later
  | .removePart _ :: later => survivors later

variable {s : BindingSet} {history : List BindingChange}

/-! ### The last change of a history -/

theorem run_snoc (s : BindingSet) (history : List BindingChange) (change : BindingChange) :
    s.run (history ++ [change]) = change.apply (s.run history) := by
  simp [run]

theorem lastBound?_snoc (history : List BindingChange) (change : BindingChange)
    (key : Slot × Option String) : lastBound? (history ++ [change]) key =
      if change.touches key then change.rule? else lastBound? history key := by
  cases h : change.touches key with
  | true => simp [lastBound?, h]
  | false => simp [lastBound?, h]

theorem survivors_snoc (history : List BindingChange) (change : BindingChange) :
    survivors (history ++ [change]) =
      (survivors history).filter (fun a => !change.touches a.key) ++ change.rule?.toList := by
  induction history with
  | nil => cases change <;> simp [survivors, BindingChange.rule?]
  | cons first history ih =>
    cases first with
    | bind a =>
      have last : (history ++ [change]).any (fun later => later.touches a.key) =
          ((history.any fun later => later.touches a.key) || change.touches a.key) := by simp
      simp only [List.cons_append, survivors, last, ih]
      cases history.any fun later => later.touches a.key with
      | true => simp
      | false =>
        cases h : change.touches a.key with
        | true => simp [h]
        | false => simp [h]
    | unbind slot partId => simpa only [List.cons_append, survivors] using ih
    | removePart partId => simpa only [List.cons_append, survivors] using ih

/-! ### One change of a set -/

theorem fst_takeKey (key : Slot × Option String) (l : List AppliedRule) :
    (takeKey key l).1 = l.find? fun a => a.key == key := by
  induction l with
  | nil => rfl
  | cons a l ih =>
    by_cases h : a.key = key
    · simp [takeKey, h]
    · simp [takeKey, h, ih]

theorem snd_takeKey {key : Slot × Option String} {l : List AppliedRule}
    (distinct : (l.map AppliedRule.key).Nodup) :
    (takeKey key l).2 = l.filter fun a => !(a.key == key) := by
  induction l with
  | nil => rfl
  | cons a l ih =>
    rw [List.map_cons, List.nodup_cons] at distinct
    by_cases h : a.key = key
    · -- the rule that is taken is the only one with its key
      have others : ∀ b ∈ l, (!(b.key == key)) = true := by
        intro b hb
        have hne : b.key ≠ key := by
          intro same
          exact distinct.1 (List.mem_map.mpr ⟨b, hb, same.trans h.symm⟩)
        simp [hne]
      simp only [takeKey, List.filter_cons, h, beq_self_eq_true, Bool.not_true,
        Bool.false_eq_true, if_false]
      exact (List.filter_eq_self.mpr others).symm
    · have hne : (!(a.key == key)) = true := by simp [h]
      simp only [takeKey, if_neg h, List.filter_cons, hne, if_true, ih distinct.2]

/-- A change drops all rules at the places that it touches, and its own rule comes last. -/
theorem toList_apply (distinct : (s.toList.map AppliedRule.key).Nodup) (change : BindingChange) :
    (change.apply s).toList =
      s.toList.filter (fun a => !change.touches a.key) ++ change.rule?.toList := by
  cases change with
  | bind a =>
    have bound : ((BindingChange.bind a).apply s).toList = (takeKey a.key s.toList).2 ++ [a] := rfl
    rw [bound, snd_takeKey distinct]
    simp only [BindingChange.touches, BindingChange.rule?, Option.toList_some, BEq.comm]
  | unbind slot partId =>
    have others : ((BindingChange.unbind slot partId).apply s).toList =
        (takeKey (slot, partId) s.toList).2 := rfl
    rw [others, snd_takeKey distinct]
    simp only [BindingChange.touches, BindingChange.rule?, Option.toList_none, List.append_nil, BEq.comm]
  | removePart partId =>
    have kept : ((BindingChange.removePart partId).apply s).toList =
        s.toList.filter fun a => a.partId != partId := rfl
    rw [kept]
    simp only [BindingChange.touches, BindingChange.rule?, Option.toList_none, List.append_nil,
      AppliedRule.key]
    rfl

theorem nodup_apply (distinct : (s.toList.map AppliedRule.key).Nodup) (change : BindingChange) :
    ((change.apply s).toList.map AppliedRule.key).Nodup := by
  rw [toList_apply distinct, List.map_append, List.nodup_append]
  refine ⟨distinct.sublist (List.filter_sublist.map _), ?_, ?_⟩
  · cases change.rule? <;> simp
  · intro key hkey key' hkey' same
    obtain ⟨a, ha, rfl⟩ := List.mem_map.mp hkey
    obtain ⟨b, hb, rfl⟩ := List.mem_map.mp hkey'
    have touched := BindingChange.touches_of_rule? (Option.mem_toList.mp hb)
    have kept := (List.mem_filter.mp ha).2
    rw [same, touched] at kept
    cases kept

theorem find?_untouched (change : BindingChange) (key : Slot × Option String) (l : List AppliedRule) :
    (l.filter fun a => !change.touches a.key).find? (fun a => a.key == key) =
      if change.touches key then none else l.find? fun a => a.key == key := by
  induction l with
  | nil => simp
  | cons a l ih =>
    by_cases same : a.key = key
    · cases h : change.touches key with
      | true => simpa [same, h] using ih
      | false => simp [same, h]
    · cases change.touches a.key with
      | true => simpa [same] using ih
      | false => simpa [same] using ih

theorem find?_rule? (change : BindingChange) (key : Slot × Option String) :
    change.rule?.toList.find? (fun a => a.key == key) =
      if change.touches key then change.rule? else none := by
  cases change with
  | bind a =>
    by_cases same : a.key = key
    · simp [BindingChange.rule?, BindingChange.touches, same]
    · simp [BindingChange.rule?, BindingChange.touches, same]
  | unbind slot partId => simp [BindingChange.rule?]
  | removePart partId => simp [BindingChange.rule?]

theorem find?_apply (distinct : (s.toList.map AppliedRule.key).Nodup) (change : BindingChange)
    (key : Slot × Option String) : (change.apply s).find? key.1 key.2 =
      if change.touches key then change.rule? else s.find? key.1 key.2 := by
  have found : (change.apply s).find? key.1 key.2 =
      (change.apply s).toList.find? fun a => a.key == key := rfl
  rw [found, toList_apply distinct, List.find?_append, find?_untouched, find?_rule?]
  cases change.touches key with
  | true => simp
  | false =>
    simp only [Bool.false_eq_true, if_false, Option.or_none]
    rfl

/-! ### Histories -/

theorem nodup_run (history : List BindingChange) :
    ((empty.run history).toList.map AppliedRule.key).Nodup := by
  induction history using List.reverseRecOn with
  | nil => exact List.nodup_nil
  | append_singleton history change ih =>
    rw [run_snoc]
    exact nodup_apply ih change

theorem toList_run (history : List BindingChange) : (empty.run history).toList = survivors history := by
  induction history using List.reverseRecOn with
  | nil => rfl
  | append_singleton history change ih =>
    rw [run_snoc, toList_apply (nodup_run history), ih, survivors_snoc]

theorem find?_run (history : List BindingChange) (key : Slot × Option String) :
    (empty.run history).find? key.1 key.2 = lastBound? history key := by
  induction history using List.reverseRecOn with
  | nil => rfl
  | append_singleton history change ih =>
    rw [run_snoc, find?_apply (nodup_run history), ih, lastBound?_snoc]

theorem ofList_eq_run (rules : List AppliedRule) : ofList rules = empty.run (rules.map .bind) := by
  rw [run, List.foldl_map]
  rfl

theorem nodup_ofList (rules : List AppliedRule) : ((ofList rules).toList.map AppliedRule.key).Nodup := by
  rw [ofList_eq_run]
  exact nodup_run _

theorem run_ofList (rules : List AppliedRule) (changes : List BindingChange) :
    (ofList rules).run changes = empty.run (rules.map .bind ++ changes) := by
  rw [ofList_eq_run, run, run, run, List.foldl_append]

theorem mem_of_mem_survivors {a : AppliedRule} (h : a ∈ survivors history) : .bind a ∈ history := by
  induction history with
  | nil => cases h
  | cons first history ih =>
    cases first with
    | bind b =>
      simp only [survivors] at h
      split at h
      · exact List.mem_cons_of_mem _ (ih h)
      · rcases List.mem_cons.mp h with rfl | h
        · exact List.mem_cons_self
        · exact List.mem_cons_of_mem _ (ih h)
    | unbind slot partId => exact List.mem_cons_of_mem _ (ih h)
    | removePart partId => exact List.mem_cons_of_mem _ (ih h)

/-- A set that is made from a list holds rules of that list only. -/
theorem mem_of_mem_ofList {rules : List AppliedRule} {a : AppliedRule} (h : a ∈ (ofList rules).toList) :
    a ∈ rules := by
  rw [ofList_eq_run, toList_run] at h
  obtain ⟨b, hb, same⟩ := List.mem_map.mp (mem_of_mem_survivors h)
  rwa [← BindingChange.bind.inj same]

/-- Rules that are moved to other places, each place to one of its own, stay bound in their order. -/
theorem toList_ofList_map {f : AppliedRule → AppliedRule} (apart : ∀ a b, (f a).key = (f b).key ↔ a.key = b.key)
    (rules : List AppliedRule) : (ofList (rules.map f)).toList = (ofList rules).toList.map f := by
  rw [ofList_eq_run, toList_run, ofList_eq_run, toList_run]
  induction rules with
  | nil => rfl
  | cons a rules ih =>
    have rebound : ((rules.map f).map BindingChange.bind).any (fun change => change.touches (f a).key) =
        (rules.map BindingChange.bind).any fun change => change.touches a.key := by
      simp only [List.any_map]
      refine List.any_congr rfl fun b => ?_
      simp only [Function.comp, BindingChange.touches, Bool.beq_eq_decide_eq, apart]
    simp only [List.map_cons, survivors, rebound, ih]
    split <;> rfl

/-! ### Answers -/

theorem fst_unbind (s : BindingSet) (slot : Slot) (partId : Option String) :
    (s.unbind slot partId).1 = s.find? slot partId := fst_takeKey (slot, partId) s.bindings

theorem fst_bind (s : BindingSet) (a : AppliedRule) : (s.bind a).1 = s.find? a.slot a.partId :=
  fst_unbind s a.slot a.partId

theorem fst_removePart (s : BindingSet) (partId : Option String) :
    (s.removePart partId).1 = s.toList.countP fun a => a.partId == partId := by
  have both := List.length_eq_countP_add_countP (fun a : AppliedRule => a.partId == partId) (l := s.toList)
  have kept : (s.removePart partId).2.size = s.toList.countP fun a => !(a.partId == partId) := by
    rw [List.countP_eq_length_filter]
    rfl
  have answer : (s.removePart partId).1 = s.toList.length - (s.removePart partId).2.size := rfl
  simp only [Bool.not_eq_true, Bool.decide_eq_false] at both
  omega

theorem ofList_toList (distinct : (s.toList.map AppliedRule.key).Nodup) : ofList s.toList = s :=
  congrArg BindingSet.mk (toList_ofList_of_nodup distinct)

/-- A binding set that was made from any rules and changed in any way is a map from places to rules: one
rule for a place, found by the place, in the order of binding, with answers that tell what was there.
Made anew from its own rules it is the same set, and so is every arrangement of them. -/
theorem told_by_history (rules : List AppliedRule) (changes : List BindingChange) :
    let s := (ofList rules).run changes
    let history := rules.map .bind ++ changes
    (s.toList.map AppliedRule.key).Nodup ∧
    (∀ slot partId, s.find? slot partId = lastBound? history (slot, partId)) ∧
    s.toList = survivors history ∧
    (∀ a, (s.bind a).1 = s.find? a.slot a.partId) ∧
    (∀ slot partId, (s.unbind slot partId).1 = s.find? slot partId) ∧
    (∀ partId, (s.removePart partId).1 = s.toList.countP (fun a => a.partId == partId) ∧
      (s.removePart partId).2.toList = s.toList.filter fun a => a.partId != partId) ∧
    ofList s.toList = s ∧
    ∀ p parts c, Arrangement.make p parts (ofList rules).toList c = Arrangement.make p parts rules c := by
  intro s history
  have made : s = empty.run history := run_ofList rules changes
  have distinct : (s.toList.map AppliedRule.key).Nodup := by
    rw [made]
    exact nodup_run history
  refine ⟨distinct, ?_, ?_, fst_bind s, fst_unbind s, ?_, ofList_toList distinct, ?_⟩
  · intro slot partId
    rw [made]
    exact find?_run history (slot, partId)
  · rw [made]
    exact toList_run history
  · intro partId
    exact ⟨fst_removePart s partId, rfl⟩
  · intro p parts c
    rw [Arrangement.make, Arrangement.make, toList_ofList_of_nodup (nodup_ofList rules)]

end BindingSet

end Ostinato
