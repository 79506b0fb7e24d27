import Mathlib.Data.List.Forall2
import Ostinato.Random.Draw

/-!
# Runs of draws

What a draw takes from its source and gives, by its steps. A row of draws that are followed by a computation
each is the row of the draws, followed by the computations.
-/

namespace Ostinato.Draw

variable {α β γ : Type}

theorem runFrom_pure (a : α) (source : Source) : (pure a : Draw α).runFrom source = (.ok a, source) := rfl

theorem runFrom_pure_eq_ok {a b : α} {source after : Source} :
    (pure a : Draw α).runFrom source = (.ok b, after) ↔ a = b ∧ source = after := by
  rw [runFrom_pure, Prod.mk.injEq, Except.ok.injEq]

theorem runFrom_bind (d : Draw α) (f : α → Draw β) (source : Source) :
    (d >>= f).runFrom source = match d.runFrom source with
      | (.ok a, after) => (f a).runFrom after
      | (.error failure, after) => (.error failure, after) := by
  change ExceptT.bindCont f (d.runFrom source).1 (d.runFrom source).2 = _
  obtain ⟨result, after⟩ := d.runFrom source
  cases result with
  | ok a => rfl
  | error failure => rfl

theorem runFrom_map (f : α → β) (d : Draw α) (source : Source) :
    (f <$> d).runFrom source = match d.runFrom source with
      | (.ok a, after) => (.ok (f a), after)
      | (.error failure, after) => (.error failure, after) := by
  rw [map_eq_pure_bind, runFrom_bind]
  rfl

theorem runFrom_map_eq_ok {f : α → β} {d : Draw α} {source after : Source} {b : β} :
    (f <$> d).runFrom source = (.ok b, after) ↔ ∃ a, d.runFrom source = (.ok a, after) ∧ f a = b := by
  rw [runFrom_map]
  obtain ⟨result, rest⟩ := d.runFrom source
  cases result <;> simp [and_comm]

theorem runFrom_map_eq_error {f : α → β} {d : Draw α} {source after : Source} {failure : Failure} :
    (f <$> d).runFrom source = (.error failure, after) ↔ d.runFrom source = (.error failure, after) := by
  rw [runFrom_map]
  obtain ⟨result, rest⟩ := d.runFrom source
  cases result <;> simp

theorem runFrom_bind_eq_ok {d : Draw α} {f : α → Draw β} {source after : Source} {b : β} :
    (d >>= f).runFrom source = (.ok b, after) ↔
      ∃ a between, d.runFrom source = (.ok a, between) ∧ (f a).runFrom between = (.ok b, after) := by
  rw [runFrom_bind]
  obtain ⟨result, rest⟩ := d.runFrom source
  cases result with
  | ok a =>
    constructor
    · exact fun h => ⟨a, rest, rfl, h⟩
    · rintro ⟨a', between, made, h⟩
      obtain ⟨rfl, rfl⟩ := by simpa using made
      exact h
  | error failure => simp

theorem runFrom_ofResult (r : Except Failure α) (source : Source) :
    (ofResult r).runFrom source = (r, source) := rfl

theorem runFrom_ofResult_eq_ok {r : Except Failure α} {source after : Source} {a : α} :
    (ofResult r).runFrom source = (.ok a, after) ↔ r = .ok a ∧ source = after := by
  rw [runFrom_ofResult, Prod.mk.injEq]

/-! ### Rows of draws -/

theorem forall₂_of_mapM {d : α → Draw β} {R : α → β → Prop} {l : List α} {r : List β}
    {source after : Source}
    (step : ∀ a ∈ l, ∀ b before next, (d a).runFrom before = (.ok b, next) → R a b)
    (h : (l.mapM d).runFrom source = (.ok r, after)) : List.Forall₂ R l r := by
  induction l generalizing r source with
  | nil =>
    rw [List.mapM_nil, runFrom_pure_eq_ok] at h
    obtain ⟨rfl, -⟩ := h
    exact .nil
  | cons a l ih =>
    rw [List.mapM_cons] at h
    obtain ⟨b, between, first, h⟩ := runFrom_bind_eq_ok.mp h
    obtain ⟨bs, last, others, h⟩ := runFrom_bind_eq_ok.mp h
    obtain ⟨rfl, rfl⟩ := runFrom_pure_eq_ok.mp h
    refine .cons (step a List.mem_cons_self b source between first) (ih ?_ others)
    exact fun a' ha' => step a' (List.mem_cons_of_mem _ ha')

theorem mapM_map (f : α → β → γ) (d : α → Draw β) (l : List α) :
    l.mapM (fun a => f a <$> d a) = List.zipWith f l <$> l.mapM d := by
  induction l with
  | nil => simp
  | cons a l ih => simp [ih]

end Ostinato.Draw
