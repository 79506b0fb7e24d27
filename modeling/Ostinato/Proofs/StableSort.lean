import Mathlib.Data.List.Forall2
import Mathlib.Data.List.Perm.Basic

/-!
# Stable sorting

What a sort has to keep: the members, the order, and the places of members that are equal in the order.
-/

namespace Ostinato

variable {α : Type} {le : α → α → Bool} {l s : List α}

/-- A list in order; members that are equal in the order stand as they stood before. -/
structure StablySorted (le : α → α → Bool) (l s : List α) : Prop where
  perm : s.Perm l
  inOrder : s.Pairwise fun a b => le a b = true
  stable : ∀ a, s.filter (fun b => le a b && le b a) = l.filter fun b => le a b && le b a

theorem stablySorted_mergeSort (trans : ∀ a b c, le a b = true → le b c = true → le a c = true)
    (total : ∀ a b, (le a b || le b a) = true) (l : List α) : StablySorted le l (l.mergeSort le) where
  perm := List.mergeSort_perm l le
  inOrder := List.pairwise_mergeSort trans total l
  stable a := by
    have tied : (l.filter fun b => le a b && le b a).Pairwise fun b c => le b c = true := by
      refine List.pairwise_of_forall_mem_list fun b hb c hc => ?_
      have hba := (List.mem_filter.mp hb).2
      have hac := (List.mem_filter.mp hc).2
      simp only [Bool.and_eq_true] at hba hac
      exact trans b a c hba.2 hac.1
    have kept := (List.sublist_mergeSort trans total tied List.filter_sublist).filter
      fun b => le a b && le b a
    rw [List.filter_filter] at kept
    simp only [Bool.and_self] at kept
    exact (kept.eq_of_length ((List.mergeSort_perm l le).filter _).length_eq.symm).symm

/-- Two arrangements of the same members are one if no two different members are equal in the order. -/
theorem StablySorted.unique {l' s' : List α} (h : StablySorted le l s) (h' : StablySorted le l' s')
    (perm : l.Perm l')
    (antisymm : ∀ a ∈ l, ∀ b ∈ l, le a b = true → le b a = true → a = b) : s = s' := by
  have same : s.Perm s' := h.perm.trans (perm.trans h'.perm.symm)
  refine same.eq_of_pairwise (fun a b ha hb => ?_) h.inOrder h'.inOrder
  exact antisymm a (h.perm.mem_iff.mp ha) b (perm.mem_iff.mpr (h'.perm.mem_iff.mp hb))

/-- Lists with related members stay so when they are sorted, if related members compare alike. -/
theorem forall₂_mergeSort {β : Type} {R : α → β → Prop} {le : α → α → Bool} {le' : β → β → Bool}
    {l : List α} {l' : List β} (h : List.Forall₂ R l l')
    (alike : ∀ a b a' b', R a a' → R b b' → le a b = le' a' b') :
    List.Forall₂ R (l.mergeSort le) (l'.mergeSort le') := by
  obtain ⟨length, related⟩ := List.forall₂_iff_zip.mp h
  -- sorting the pairs sorts both lists at once
  have left : ((l.zip l').mergeSort fun x y => le x.1 y.1).map Prod.fst = l.mergeSort le := by
    rw [List.map_mergeSort (s := le) fun x _ y _ => rfl, List.map_fst_zip (Nat.le_of_eq length)]
  have right : ((l.zip l').mergeSort fun x y => le x.1 y.1).map Prod.snd = l'.mergeSort le' := by
    rw [List.map_mergeSort (s := le') fun x hx y hy => alike _ _ _ _ (related hx) (related hy),
      List.map_snd_zip (Nat.le_of_eq length.symm)]
  rw [← left, ← right, List.forall₂_map_left_iff, List.forall₂_map_right_iff, List.forall₂_same]
  intro x hx
  exact related (List.mem_mergeSort.mp hx)

end Ostinato
