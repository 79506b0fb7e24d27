import Mathlib.Tactic.SplitIfs
import Ostinato.Proofs.Random.Draw

/-!
# Calls to a source

The calls that are put to a source one after another, with what it answers to each. A scripted source has
all of them in its log. It answers as long as its script lasts, and a seeded source always does.
-/

namespace Ostinato

namespace Draw

/-- Puts a call to a source. -/
def ask : Call → Draw Amount
  | .fraction => fraction
  | .below count => (fun place : Nat => .whole place) <$> below count

theorem ask_of_below {count : Int} {place : Nat} {source after : Source}
    (h : (below count).runFrom source = (.ok place, after)) :
    (ask (.below count)).runFrom source = (.ok (.whole place), after) :=
  runFrom_map_eq_ok.mpr ⟨place, h, rfl⟩

theorem runFrom_fraction_seeded (generator : Twister) :
    fraction.runFrom (.seeded generator) =
      (.ok (.real (.finite (mkRat generator.fraction.1 (Nat.pow 2 53)))),
        .seeded generator.fraction.2) := rfl

theorem runFrom_below_seeded (count : Int) (generator : Twister) :
    (below count).runFrom (.seeded generator) =
      if count ≤ 0 then (.error .nothingToDraw, .seeded generator)
      else (.ok (generator.below count.toNat).1, .seeded (generator.below count.toNat).2) := rfl

theorem log_fraction (source : Source) :
    (fraction.runFrom source).2.log? = source.log?.map (· ++ [.fraction]) := by
  cases source with
  | seeded generator =>
    rw [runFrom_fraction_seeded]
    rfl
  | scripted remaining log => cases remaining <;> rfl

theorem log_below (count : Int) (source : Source) :
    ((below count).runFrom source).2.log? = source.log?.map (· ++ [.below count]) := by
  cases source with
  | seeded generator =>
    rw [runFrom_below_seeded]
    split_ifs <;> rfl
  | scripted remaining log => cases remaining <;> rfl

theorem log_of_ask {call : Call} {answer : Amount} {source after : Source}
    (h : (ask call).runFrom source = (.ok answer, after)) :
    after.log? = source.log?.map (· ++ [call]) := by
  cases call with
  | fraction =>
    have log := log_fraction source
    rwa [show fraction.runFrom source = (.ok answer, after) from h] at log
  | below count =>
    obtain ⟨place, h, -⟩ := runFrom_map_eq_ok.mp h
    have log := log_below count source
    rwa [h] at log

end Draw

namespace Source

/-- What a source answers to calls, one after another, and the source that is left after them. -/
inductive Answers : Source → List (Call × Amount) → Source → Prop
  | nil (source : Source) : Answers source [] source
  | cons {source between after : Source} {call : Call} {answer : Amount} {rest : List (Call × Amount)}
      (first : (Draw.ask call).runFrom source = (.ok answer, between))
      (others : Answers between rest after) : Answers source ((call, answer) :: rest) after

variable {source between after : Source} {answered more : List (Call × Amount)}

theorem Answers.append (h : source.Answers answered between) (h' : between.Answers more after) :
    source.Answers (answered ++ more) after := by
  induction h with
  | nil source => exact h'
  | cons first others ih => exact .cons first (ih h')

theorem Answers.log (h : source.Answers answered after) :
    after.log? = source.log?.map (· ++ answered.map (·.1)) := by
  induction h with
  | nil source => cases source.log? <;> simp
  | cons first others ih =>
    rw [ih, Draw.log_of_ask first, Option.map_map]
    simp [Function.comp_def]

end Source

/-- The calls of a row of draws are those of its draws, one after another. -/
theorem Draw.exists_answered_of_mapM {α β : Type} {d : α → Draw β}
    {Asks : α → List (Call × Amount) → Prop}
    (step : ∀ a b before next, (d a).runFrom before = (.ok b, next) →
      ∃ answered, Asks a answered ∧ before.Answers answered next)
    {l : List α} {r : List β} {source after : Source} (h : (l.mapM d).runFrom source = (.ok r, after)) :
    ∃ rounds, List.Forall₂ Asks l rounds ∧ source.Answers rounds.flatten after := by
  induction l generalizing r source with
  | nil =>
    rw [List.mapM_nil, runFrom_pure_eq_ok] at h
    obtain ⟨-, rfl⟩ := h
    exact ⟨[], .nil, .nil source⟩
  | cons a l ih =>
    rw [List.mapM_cons] at h
    obtain ⟨b, between, first, h⟩ := runFrom_bind_eq_ok.mp h
    obtain ⟨bs, last, others, h⟩ := runFrom_bind_eq_ok.mp h
    obtain ⟨-, rfl⟩ := runFrom_pure_eq_ok.mp h
    obtain ⟨answered, asked, answers⟩ := step a b source between first
    obtain ⟨rounds, all_asked, all_answers⟩ := ih others
    refine ⟨answered :: rounds, .cons asked all_asked, ?_⟩
    rw [List.flatten_cons]
    exact answers.append all_answers

/-! ### Sources that last -/

/-- Whether an amount can be read as a whole number and as a binary64 number. -/
def Amount.IsNumber (a : Amount) : Prop := (∃ n, a.truncate = .ok n) ∧ ∃ x, a.toReal = .ok x

/-- Whether a source has answers for a number of calls. A seeded source has them for any number. -/
inductive Source.LastsFor (count : Nat) : Source → Prop
  | seeded (generator : Twister) : LastsFor count (.seeded generator)
  | scripted {remaining : List Amount} {log : List Call} (enough : count ≤ remaining.length)
      (numbers : ∀ a ∈ remaining, a.IsNumber) : LastsFor count (.scripted remaining log)

theorem Source.LastsFor.mono {source : Source} {m n : Nat} (h : source.LastsFor n) (fewer : m ≤ n) :
    source.LastsFor m := by
  cases h with
  | seeded generator => exact .seeded generator
  | scripted enough numbers => exact .scripted (Nat.le_trans fewer enough) numbers

theorem Source.LastsFor.of_scripted {remaining : List Amount} {log : List Call} {n : Nat}
    (h : (Source.scripted remaining log).LastsFor (n + 1)) :
    ∃ a rest, remaining = a :: rest ∧ a.IsNumber ∧ ∀ log', (Source.scripted rest log').LastsFor n := by
  obtain _ | ⟨enough, numbers⟩ := h
  obtain ⟨a, rest, rfl⟩ := List.exists_cons_of_length_pos (Nat.lt_of_lt_of_le n.succ_pos enough)
  refine ⟨a, rest, rfl, numbers a List.mem_cons_self, fun log' => .scripted ?_ ?_⟩
  · exact Nat.le_of_succ_le_succ enough
  · exact fun b member => numbers b (List.mem_cons_of_mem a member)

namespace Draw

variable {source : Source} {n : Nat}

theorem exists_fraction (lasts : source.LastsFor (n + 1)) :
    ∃ a x after, fraction.runFrom source = (.ok a, after) ∧ a.toReal = .ok x ∧ after.LastsFor n := by
  cases source with
  | seeded generator => exact ⟨_, _, _, runFrom_fraction_seeded generator, rfl, .seeded _⟩
  | scripted remaining log =>
    obtain ⟨a, rest, rfl, ⟨-, x, read⟩, lasts⟩ := lasts.of_scripted
    exact ⟨a, x, _, rfl, read, lasts _⟩

theorem exists_below {count : Int} (positive : 0 < count) (lasts : source.LastsFor (n + 1)) :
    ∃ place after, (below count).runFrom source = (.ok place, after) ∧ after.LastsFor n := by
  cases source with
  | seeded generator =>
    refine ⟨(generator.below count.toNat).1, .seeded (generator.below count.toNat).2, ?_, .seeded _⟩
    rw [runFrom_below_seeded, if_neg (Int.not_le.mpr positive)]
  | scripted remaining log =>
    obtain ⟨a, rest, rfl, ⟨⟨m, cut⟩, -⟩, lasts⟩ := lasts.of_scripted
    refine ⟨(m.fmod count).toNat, .scripted rest (log ++ [.below count]), ?_, lasts _⟩
    change (Failure.ofNumber (a.truncate.map _), _) = _
    rw [cut]
    rfl

/-- A row of draws is finished where its source lasts for the calls of each of them. -/
theorem exists_mapM {α β : Type} {d : α → Draw β} {k : Nat}
    (step : ∀ a source n, source.LastsFor (n + k) →
      ∃ b after, (d a).runFrom source = (.ok b, after) ∧ after.LastsFor n)
    {l : List α} (lasts : source.LastsFor (n + k * l.length)) :
    ∃ r after, (l.mapM d).runFrom source = (.ok r, after) ∧ after.LastsFor n := by
  induction l generalizing source with
  | nil => exact ⟨[], source, rfl, lasts⟩
  | cons a l ih =>
    rw [List.length_cons, Nat.mul_succ, ← Nat.add_assoc] at lasts
    obtain ⟨b, between, first, lasts⟩ := step a source _ lasts
    obtain ⟨r, after, others, lasts⟩ := ih lasts
    refine ⟨b :: r, after, ?_, lasts⟩
    rw [List.mapM_cons]
    exact runFrom_bind_eq_ok.mpr ⟨b, between, first,
      runFrom_bind_eq_ok.mpr ⟨r, after, others, runFrom_pure _ _⟩⟩

end Draw

end Ostinato
