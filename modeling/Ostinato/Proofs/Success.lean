import Mathlib.Data.List.Forall2
import Mathlib.Data.List.Perm.Basic
import Ostinato.Failure

/-!
# Success

When computations that may fail have a result. A list of computations succeeds if each of them does, in
whatever order they are made.
-/

namespace Ostinato.Success

variable {ε α β γ : Type}

theorem bind_eq_ok {x : Except ε α} {f : α → Except ε β} {b : β} :
    x >>= f = .ok b ↔ ∃ a, x = .ok a ∧ f a = .ok b := by
  cases x <;> simp [bind, Except.bind]

theorem pure_eq_ok {a b : α} : (pure a : Except ε α) = .ok b ↔ a = b := by
  simp [pure, Except.pure]

theorem map_eq_ok {x : Except ε α} {f : α → β} {b : β} :
    x.map f = .ok b ↔ ∃ a, x = .ok a ∧ f a = b := by
  cases x <;> simp [Except.map]

theorem ok_of_toOption {x : Except ε α} {a : α} (h : x.toOption = some a) : x = .ok a := by
  cases x with
  | ok b => exact congrArg Except.ok (Option.some.inj h)
  | error e => cases h

theorem mapM_eq_ok {f : α → Except ε β} {l : List α} {r : List β} :
    l.mapM f = .ok r ↔ List.Forall₂ (fun a b => f a = .ok b) l r := by
  induction l generalizing r with
  | nil =>
    simp only [List.mapM_nil, pure_eq_ok, List.forall₂_nil_left_iff]
    exact eq_comm
  | cons a l ih =>
    simp only [List.mapM_cons, bind_eq_ok, pure_eq_ok, ih, List.forall₂_cons_left_iff]
    constructor
    · rintro ⟨b, hb, bs, hbs, rfl⟩
      exact ⟨b, bs, hb, hbs, rfl⟩
    · rintro ⟨b, bs, hb, hbs, rfl⟩
      exact ⟨b, hb, bs, hbs, rfl⟩

theorem mapM_perm {f : α → Except ε β} {l l' : List α} {r : List β} (h : l.Perm l')
    (hr : l.mapM f = .ok r) : ∃ r', l'.mapM f = .ok r' ∧ r'.Perm r := by
  obtain ⟨r', hr', perm⟩ := List.perm_comp_forall₂ h.symm (mapM_eq_ok.mp hr)
  exact ⟨r', mapM_eq_ok.mpr hr', perm⟩

theorem exists_of_mem_mapM {f : α → Except ε β} {l : List α} {r : List β} (hr : l.mapM f = .ok r)
    {b : β} (hb : b ∈ r) : ∃ a ∈ l, f a = .ok b := by
  have all := mapM_eq_ok.mp hr
  clear hr
  induction all with
  | nil => cases hb
  | @cons a c l r hac _ ih =>
    rcases List.mem_cons.mp hb with rfl | hb
    · exact ⟨a, List.mem_cons_self, hac⟩
    · obtain ⟨d, hd, hdb⟩ := ih hb
      exact ⟨d, List.mem_cons_of_mem _ hd, hdb⟩

theorem exists_mem_of_mapM {f : α → Except ε β} {l : List α} {r : List β} (hr : l.mapM f = .ok r)
    {a : α} (ha : a ∈ l) : ∃ b ∈ r, f a = .ok b := by
  have all := mapM_eq_ok.mp hr
  clear hr
  induction all with
  | nil => cases ha
  | @cons d b l r hdb _ ih =>
    rcases List.mem_cons.mp ha with rfl | ha
    · exact ⟨b, List.mem_cons_self, hdb⟩
    · obtain ⟨e, he, hae⟩ := ih ha
      exact ⟨e, List.mem_cons_of_mem _ he, hae⟩

theorem map_eq_map_of_mapM {f : α → Except ε β} {g : β → γ} {k : α → γ} {l : List α} {r : List β}
    (kept : ∀ a b, f a = .ok b → g b = k a) (hr : l.mapM f = .ok r) : r.map g = l.map k := by
  have all := mapM_eq_ok.mp hr
  clear hr
  induction all with
  | nil => rfl
  | cons hab _ ih => rw [List.map_cons, List.map_cons, kept _ _ hab, ih]

theorem mapM_of_forall {f : α → Except ε β} {g : α → β} {l : List α} (h : ∀ a ∈ l, f a = .ok (g a)) :
    l.mapM f = .ok (l.map g) := by
  induction l with
  | nil => rfl
  | cons a l ih =>
    obtain ⟨ha, hl⟩ := List.forall_mem_cons.mp h
    rw [List.mapM_cons, ha, ih hl]
    rfl

theorem mapM_congr {f g : α → Except ε β} {l : List α} (h : ∀ a ∈ l, f a = g a) :
    l.mapM f = l.mapM g := by
  induction l with
  | nil => rfl
  | cons a l ih =>
    obtain ⟨ha, hl⟩ := List.forall_mem_cons.mp h
    rw [List.mapM_cons, List.mapM_cons, ha, ih hl]

theorem map_mapM (f : α → Except ε β) (g : β → γ) (l : List α) :
    (l.mapM f).map (List.map g) = l.mapM fun a => (f a).map g := by
  induction l with
  | nil => rfl
  | cons a l ih =>
    rw [List.mapM_cons, List.mapM_cons, ← ih]
    cases f a with
    | error e => rfl
    | ok b =>
      cases l.mapM f with
      | error e => rfl
      | ok bs => rfl

/-- What is made of each item and its result can be made of the pairs of both. -/
theorem mapM_map_eq_ok {f : α → Except ε β} (g : α → β → γ) {l : List α} {r : List γ} :
    l.mapM (fun a => (f a).map (g a)) = .ok r ↔
      ∃ pairs, l.mapM (fun a => (f a).map (Prod.mk a)) = .ok pairs ∧ pairs.map (fun x => g x.1 x.2) = r := by
  have through_pairs : l.mapM (fun a => (f a).map (g a)) =
      (l.mapM fun a => (f a).map (Prod.mk a)).map (List.map fun x => g x.1 x.2) := by
    rw [map_mapM]
    refine mapM_congr fun a _ => ?_
    cases f a <;> rfl
  rw [through_pairs, map_eq_ok]

/-- Two steps in a row have the results of one step on related items, whatever each of them fails with. -/
theorem exists_mapM_of_steps {ε₁ ε₂ ε₃ δ : Type} {f : α → Except ε₁ δ} {g : β → Except ε₂ γ}
    {k : γ → Except ε₃ δ} {l : List α} {r : List β}
    (h : List.Forall₂ (fun a b => ∃ c d, g b = .ok c ∧ k c = .ok d ∧ f a = .ok d) l r) :
    ∃ cs ds, r.mapM g = .ok cs ∧ cs.mapM k = .ok ds ∧ l.mapM f = .ok ds := by
  induction h with
  | nil => exact ⟨[], [], rfl, rfl, rfl⟩
  | cons step _ ih =>
    obtain ⟨c, d, hg, hk, hf⟩ := step
    obtain ⟨cs, ds, hgs, hks, hfs⟩ := ih
    refine ⟨c :: cs, d :: ds, mapM_eq_ok.mpr (.cons hg (mapM_eq_ok.mp hgs)),
      mapM_eq_ok.mpr (.cons hk (mapM_eq_ok.mp hks)), mapM_eq_ok.mpr (.cons hf (mapM_eq_ok.mp hfs))⟩

theorem exists_mapM {f : α → Except ε β} {l : List α} (h : ∀ a ∈ l, ∃ b, f a = .ok b) :
    ∃ r, l.mapM f = .ok r := by
  induction l with
  | nil => exact ⟨[], rfl⟩
  | cons a l ih =>
    obtain ⟨⟨b, hb⟩, hl⟩ := List.forall_mem_cons.mp h
    obtain ⟨bs, hbs⟩ := ih hl
    exact ⟨b :: bs, mapM_eq_ok.mpr (.cons hb (mapM_eq_ok.mp hbs))⟩

/-- Computations on related items succeed with related results, if those on the first items succeed. -/
theorem mapM_rel₂ {α' β' : Type} {f : α → Except ε β} {g : α' → Except ε β'} {R : α → α' → Prop}
    {S : β → β' → Prop} {l : List α} {l' : List α'} {r : List β}
    (step : ∀ a a' b, R a a' → f a = .ok b → ∃ b', g a' = .ok b' ∧ S b b') (hl : List.Forall₂ R l l')
    (hr : l.mapM f = .ok r) : ∃ r', l'.mapM g = .ok r' ∧ List.Forall₂ S r r' := by
  induction hl generalizing r with
  | nil =>
    obtain rfl := pure_eq_ok.mp hr
    exact ⟨[], rfl, .nil⟩
  | @cons a a' l l' related _ ih =>
    rw [List.mapM_cons] at hr
    obtain ⟨b, hb, hr⟩ := bind_eq_ok.mp hr
    obtain ⟨bs, hbs, hr⟩ := bind_eq_ok.mp hr
    obtain rfl := pure_eq_ok.mp hr
    obtain ⟨b', hb', made⟩ := step a a' b related hb
    obtain ⟨bs', hbs', rest⟩ := ih hbs
    refine ⟨b' :: bs', ?_, .cons made rest⟩
    rw [List.mapM_cons, hb', hbs']
    rfl

/-- A second row of computations succeeds with related results if each of its members does. -/
theorem mapM_rel_of_mem {β' : Type} {f : α → Except ε β} {g : α → Except ε β'} {S : β → β' → Prop}
    {l : List α} {r : List β} (step : ∀ a ∈ l, ∀ b, f a = .ok b → ∃ b', g a = .ok b' ∧ S b b')
    (hr : l.mapM f = .ok r) : ∃ r', l.mapM g = .ok r' ∧ List.Forall₂ S r r' := by
  have itself : List.Forall₂ (fun a a' => a' = a ∧ a ∈ l) l l :=
    List.forall₂_same.mpr fun a ha => ⟨rfl, ha⟩
  refine mapM_rel₂ (fun a a' b related hb => ?_) itself hr
  obtain ⟨rfl, ha⟩ := related
  exact step a' ha b hb

theorem mapM_rel {f g : α → Except ε β} {R : β → β → Prop} {l : List α} {r : List β}
    (step : ∀ a b, f a = .ok b → ∃ b', g a = .ok b' ∧ R b b') (hr : l.mapM f = .ok r) :
    ∃ r', l.mapM g = .ok r' ∧ List.Forall₂ R r r' := mapM_rel_of_mem (fun a _ b hb => step a b hb) hr

end Ostinato.Success
