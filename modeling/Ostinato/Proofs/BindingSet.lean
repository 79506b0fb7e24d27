import Mathlib.Data.List.Basic
import Ostinato.BindingSet

/-!
# Binding sets

Binding a rule to a place that nothing is bound to leaves all other rules as they are. The rules that
apply to a part follow from those that were bound for it or for every part, in their order.
-/

namespace Ostinato.BindingSet

theorem takeKey_of_vacant {key : Slot × Option String} {l : List AppliedRule}
    (vacant : ∀ b ∈ l, b.key ≠ key) : takeKey key l = (none, l) := by
  induction l with
  | nil => rfl
  | cons b l ih =>
    obtain ⟨hb, hl⟩ := List.forall_mem_cons.mp vacant
    simp only [takeKey, if_neg hb, ih hl]

theorem bind_of_vacant {s : BindingSet} {a : AppliedRule} (vacant : ∀ b ∈ s.bindings, b.key ≠ a.key) :
    s.bind a = (none, ⟨s.bindings ++ [a]⟩) := by
  have untouched : takeKey (a.slot, a.partId) s.bindings = (none, s.bindings) :=
    takeKey_of_vacant vacant
  simp only [bind, unbind, untouched]

theorem foldl_bind_of_nodup {s : BindingSet} {rules : List AppliedRule}
    (distinct : ((s.bindings ++ rules).map AppliedRule.key).Nodup) :
    rules.foldl (fun s a => (s.bind a).2) s = ⟨s.bindings ++ rules⟩ := by
  induction rules generalizing s with
  | nil => rw [List.foldl_nil, List.append_nil]
  | cons a rules ih =>
    have vacant : ∀ b ∈ s.bindings, b.key ≠ a.key := by
      rw [List.map_append, List.nodup_append] at distinct
      exact fun b hb => distinct.2.2 _ (List.mem_map_of_mem hb) _ (List.mem_map_of_mem List.mem_cons_self)
    rw [List.append_cons] at distinct ⊢
    rw [List.foldl_cons, bind_of_vacant vacant]
    exact ih distinct

/-- Rules for different places are all kept, in their order. -/
theorem toList_ofList_of_nodup {rules : List AppliedRule}
    (distinct : (rules.map AppliedRule.key).Nodup) : (ofList rules).toList = rules :=
  congrArg bindings (foldl_bind_of_nodup (s := empty) distinct)

/-! ### Rules that apply to a part -/

section ForOnePart

variable {partId : String} {owner : Option String}

theorem filter_takeKey_of_applies (slot : Slot)
    (applies : (owner == none || owner == some partId) = true) (l : List AppliedRule) :
    (takeKey (slot, owner) l).2.filter (·.appliesTo partId) =
      (takeKey (slot, owner) (l.filter (·.appliesTo partId))).2 := by
  induction l with
  | nil => rfl
  | cons a l ih =>
    by_cases hkey : a.key = (slot, owner)
    · have howner : a.partId = owner := congrArg Prod.snd hkey
      have kept : a.appliesTo partId = true := by
        rw [AppliedRule.appliesTo, howner]
        exact applies
      simp only [takeKey, hkey, if_true, List.filter_cons, kept]
    · by_cases kept : a.appliesTo partId = true
      · simp only [takeKey, if_neg hkey, List.filter_cons, kept, if_true, ih]
      · simp only [takeKey, if_neg hkey, List.filter_cons, if_neg kept, ih]

theorem filter_takeKey_of_other (slot : Slot)
    (other : (owner == none || owner == some partId) = false) (l : List AppliedRule) :
    (takeKey (slot, owner) l).2.filter (·.appliesTo partId) = l.filter (·.appliesTo partId) := by
  induction l with
  | nil => rfl
  | cons a l ih =>
    by_cases hkey : a.key = (slot, owner)
    · have howner : a.partId = owner := congrArg Prod.snd hkey
      have dropped : ¬ a.appliesTo partId = true := by
        rw [AppliedRule.appliesTo, howner, other]
        exact Bool.false_ne_true
      simp only [takeKey, hkey, if_true, List.filter_cons, if_neg dropped]
    · by_cases kept : a.appliesTo partId = true
      · simp only [takeKey, if_neg hkey, List.filter_cons, kept, if_true, ih]
      · simp only [takeKey, if_neg hkey, List.filter_cons, if_neg kept, ih]

theorem filter_unbind_of_other (s : BindingSet) (slot : Slot)
    (other : (owner == none || owner == some partId) = false) :
    (s.unbind slot owner).2.toList.filter (·.appliesTo partId) =
      s.toList.filter (·.appliesTo partId) :=
  filter_takeKey_of_other slot other s.bindings

theorem filter_bind (s : BindingSet) (a : AppliedRule) (partId : String) :
    (s.bind a).2.toList.filter (·.appliesTo partId) =
      if a.appliesTo partId then
        (takeKey a.key (s.toList.filter (·.appliesTo partId))).2 ++ [a]
      else s.toList.filter (·.appliesTo partId) := by
  have bound : (s.bind a).2.toList = (takeKey a.key s.toList).2 ++ [a] := rfl
  rw [bound, List.filter_append]
  cases ha : a.appliesTo partId with
  | true =>
    rw [AppliedRule.key, filter_takeKey_of_applies a.slot ha s.toList]
    simp [ha]
  | false =>
    rw [AppliedRule.key, filter_takeKey_of_other a.slot ha s.toList]
    simp [ha]

theorem filter_removePart_of_other (s : BindingSet) {name : String} (other : name ≠ partId) :
    (s.removePart (some name)).2.toList.filter (·.appliesTo partId) =
      s.toList.filter (·.appliesTo partId) := by
  have removed : (s.removePart (some name)).2.toList =
      s.toList.filter fun a => a.partId != some name := rfl
  rw [removed, List.filter_filter]
  refine List.filter_congr fun a _ => ?_
  cases ha : a.appliesTo partId with
  | false => rfl
  | true =>
    have hne : a.partId ≠ some name := by
      intro hname
      simp [AppliedRule.appliesTo, hname, other] at ha
    simp [hne]

theorem filter_foldl_bind (rules : List AppliedRule) {s s' : BindingSet}
    (same : s.toList.filter (·.appliesTo partId) = s'.toList) :
    (rules.foldl (fun s a => (s.bind a).2) s).toList.filter (·.appliesTo partId) =
      ((rules.filter (·.appliesTo partId)).foldl (fun s a => (s.bind a).2) s').toList := by
  induction rules generalizing s s' with
  | nil => exact same
  | cons a rules ih =>
    have step := filter_bind s a partId
    cases ha : a.appliesTo partId with
    | true =>
      have bound : (s'.bind a).2.toList = (takeKey a.key s'.toList).2 ++ [a] := rfl
      rw [ha, if_pos rfl, same, ← bound] at step
      simp only [List.filter_cons, ha, if_true, List.foldl_cons]
      exact ih step
    | false =>
      rw [ha, if_neg Bool.false_ne_true, same] at step
      simp only [List.filter_cons, ha, Bool.false_eq_true, if_false, List.foldl_cons]
      exact ih step

/-- Later rules replace earlier ones in the same way, whether the rules of other parts are there or not. -/
theorem filter_toList_ofList (rules : List AppliedRule) :
    (ofList rules).toList.filter (·.appliesTo partId) =
      (ofList (rules.filter (·.appliesTo partId))).toList :=
  filter_foldl_bind rules rfl

end ForOnePart

end Ostinato.BindingSet
