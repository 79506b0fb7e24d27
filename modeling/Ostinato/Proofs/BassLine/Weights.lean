import Ostinato.Proofs.BassLine.Tones
import Ostinato.Proofs.Number.Order

/-!
# Tones drawn by weight

An amount is drawn below the sum of the weights, and the weights are taken from it one after another. The
option that uses up what is left of a positive amount has a positive weight. Where nothing is drawn, or
rounding leaves something behind all weights, the first option is taken whatever its weight.
-/

namespace Ostinato

namespace BassLine

open Binary64

/-- Options whose weights are finite and not below zero. -/
def Weighed (offered : List (String × Binary64)) : Prop :=
  ∀ o ∈ offered, ∃ q, o.2.toRat? = some q ∧ 0 ≤ q

/-- A tone that some option offers with a positive weight. -/
def OfferedWithWeight (offered : List (String × Binary64)) (tone : String) : Prop :=
  ∃ o ∈ offered, o.1 = tone ∧ ∃ q, o.2.toRat? = some q ∧ 0 < q

/-- What is left of an amount behind all weights. -/
def leftOver (amount : Binary64) (offered : List (String × Binary64)) : Binary64 :=
  offered.foldl (fun left o => left.sub o.2) amount

/-- A positive amount of which the weights leave nothing. -/
def UsedUp (amount : Binary64) (offered : List (String × Binary64)) : Prop :=
  amount.le (.finite 0) = false ∧ (leftOver amount offered).le (.finite 0) = true

variable {offered : List (String × Binary64)} {amount : Binary64} {tone : String}

theorem leftOver_le_zero (weighed : Weighed offered) (spent : amount.le (.finite 0) = true) :
    (leftOver amount offered).le (.finite 0) = true := by
  induction offered generalizing amount with
  | nil => exact spent
  | cons o rest ih =>
    obtain ⟨⟨q, hw, hq⟩, others⟩ := List.forall_mem_cons.mp weighed
    exact ih others (sub_le_zero spent hw hq)

theorem reached?_eq_none_iff (weighed : Weighed offered) (positive : amount.le (.finite 0) = false) :
    reached? amount offered = none ↔ (leftOver amount offered).le (.finite 0) = false := by
  fun_induction reached? amount offered with
  | case1 => simpa [leftOver] using positive
  | case2 amount degree weight rest left enough =>
    obtain ⟨-, others⟩ := List.forall_mem_cons.mp weighed
    have spent : (leftOver left rest).le (.finite 0) = true := leftOver_le_zero others enough
    have same : leftOver amount ((degree, weight) :: rest) = leftOver left rest := rfl
    simp [same, spent]
  | case3 amount degree weight rest left short ih =>
    obtain ⟨-, others⟩ := List.forall_mem_cons.mp weighed
    exact ih others (Bool.eq_false_iff.mpr short)

theorem offeredWithWeight_of_reached? (weighed : Weighed offered)
    (positive : amount.le (.finite 0) = false) (onGrid : amount.Representable)
    (h : reached? amount offered = some tone) : OfferedWithWeight offered tone := by
  -- what is left stays on the grid, so that a weight of zero cannot use it up
  fun_induction reached? amount offered with
  | case1 => cases h
  | case2 amount degree weight rest left enough =>
    obtain rfl := Option.some.inj h
    obtain ⟨⟨q, hw, hq⟩, -⟩ := List.forall_mem_cons.mp weighed
    rcases hq.eq_or_lt with rfl | above
    · rw [show left = amount.sub weight from rfl, sub_zero_not_le_zero positive onGrid hw] at enough
      cases enough
    · exact ⟨_, List.mem_cons_self, rfl, q, hw, above⟩
  | case3 amount degree weight rest left short ih =>
    obtain ⟨-, others⟩ := List.forall_mem_cons.mp weighed
    obtain ⟨o, ho, found⟩ := ih others (Bool.eq_false_iff.mpr short) (representable_add _ _) h
    exact ⟨o, List.mem_cons_of_mem _ ho, found⟩

theorem reached?_of_spent {first : String × Binary64} {others : List (String × Binary64)}
    (weighed : Weighed (first :: others)) (spent : amount.le (.finite 0) = true) :
    reached? amount (first :: others) = some first.1 := by
  obtain ⟨⟨q, hw, hq⟩, -⟩ := List.forall_mem_cons.mp weighed
  rw [reached?]
  exact if_pos (sub_le_zero spent hw hq)

theorem pick_by_weight {first : String × Binary64} {others : List (String × Binary64)}
    (weighed : Weighed (first :: others)) (onGrid : amount.Representable) :
    (UsedUp amount (first :: others) →
      OfferedWithWeight (first :: others) ((reached? amount (first :: others)).getD first.1)) ∧
    (¬ UsedUp amount (first :: others) → (reached? amount (first :: others)).getD first.1 = first.1) := by
  constructor
  · rintro ⟨positive, spent⟩
    cases found : reached? amount (first :: others) with
    | none =>
      rw [(reached?_eq_none_iff weighed positive).mp found] at spent
      cases spent
    | some tone => exact offeredWithWeight_of_reached? weighed positive onGrid found
  · intro unused
    cases positive : amount.le (.finite 0) with
    | true => rw [reached?_of_spent weighed positive, Option.getD_some]
    | false =>
      have left : (leftOver amount (first :: others)).le (.finite 0) = false :=
        Bool.eq_false_iff.mpr fun spent => unused ⟨positive, spent⟩
      rw [(reached?_eq_none_iff weighed positive).mpr left, Option.getD_none]

-- weights that are each rounded up into the sum leave something of the greatest amount
example :
    let light : Binary64 := .finite ((2 ^ 52 + 1) / 2 ^ 105)
    let offered := [("5", .finite 0), ("1", .finite 1), ("5", light), ("1", light), ("5", light)]
    ¬ UsedUp ((finite (1 - 1 / 2 ^ 53)).mul (totalWeight offered)) offered := by
  unfold UsedUp
  decide +kernel

/-- Where the first fraction does not ask for an even pick, the tone of a beat has a weight exactly if the
weights use up the amount that the second fraction gives, or the first option has one anyway. -/
theorem weight_of_preferredTone {preferences : List Rule} (anchor : String) {chord : String}
    {randomness : Int} {source between after : Source} {first : String × Binary64} {others : List (String × Binary64)}
    {draw second : Amount} {chance fraction : Binary64}
    (offered : options preferences chord = first :: others) (weighed : Weighed (first :: others))
    (hdraw : Draw.fraction.runFrom source = (.ok draw, between))
    (hchance : evenChance randomness = .ok chance)
    (by_weight : ¬ (draw.below chance = true ∧ 1 < (first :: others).length))
    (hsecond : Draw.fraction.runFrom between = (.ok second, after))
    (hfraction : second.toReal = .ok fraction) :
    ∃ tone, (preferredTone preferences anchor chord randomness).runFrom source = (.ok tone, after) ∧
      (¬ UsedUp (fraction.mul (totalWeight (first :: others))) (first :: others) → tone = first.1) ∧
      (OfferedWithWeight (first :: others) tone ↔
        UsedUp (fraction.mul (totalWeight (first :: others))) (first :: others) ∨
          OfferedWithWeight (first :: others) first.1) := by
  obtain ⟨used, unused⟩ := pick_by_weight weighed
    (representable_mul fraction (totalWeight (first :: others)))
  refine ⟨_, (preferredTone_eq_ok offered).mpr ⟨draw, between, chance, hdraw, hchance, ?_⟩, unused, ?_⟩
  · rw [offered, if_neg by_weight]
    exact ⟨second, fraction, hsecond, hfraction, rfl⟩
  · constructor
    · intro weight
      by_cases amount : UsedUp (fraction.mul (totalWeight (first :: others))) (first :: others)
      · exact .inl amount
      · rw [unused amount] at weight
        exact .inr weight
    · rintro (amount | weight)
      · exact used amount
      · by_cases amount : UsedUp (fraction.mul (totalWeight (first :: others))) (first :: others)
        · exact used amount
        · rw [unused amount]
          exact weight

/-! ### A fifth without weight before a root with weight -/

def favouring (id action : String) (weight : Rat) : Rule :=
  ⟨id, .bass, [], 1, none, .preference, .targetTone, .always, action, some (.finite weight)⟩

def fifthThenRoot : List Rule :=
  [favouring "idle" "prefer the fifth" 0, favouring "land" "prefer the root" 1]

theorem options_fifthThenRoot : options fifthThenRoot "I" = [("5", .finite 0), ("1", .finite 1)] := by
  decide +kernel

theorem weighed_fifthThenRoot : Weighed [("5", .finite 0), ("1", .finite 1)] := by
  simp [Weighed]

def given (fractions : List Rat) (log : List Call) : Source :=
  .scripted (fractions.map fun q => .real (.finite q)) log

theorem fraction_given (q : Rat) (rest : List Rat) (log : List Call) :
    Draw.fraction.runFrom (given (q :: rest) log) =
      (.ok (.real (.finite q)), given rest (log ++ [.fraction])) := rfl

theorem never_even : evenChance 0 = .ok (.finite 0) := by decide +kernel

theorem half_by_weight : ¬ ((Amount.real (.finite (1 / 2))).below (.finite 0) = true ∧
    1 < [("5", Binary64.finite 0), ("1", .finite 1)].length) := by decide +kernel

theorem root_drawn_by_weight : Weighed (options fifthThenRoot "I") ∧
    ∃ tone, (preferredTone fifthThenRoot "1" "I" 0).runFrom (given [1 / 2, 1 / 2] []) =
        (.ok tone, given [] [.fraction, .fraction]) ∧
      OfferedWithWeight (options fifthThenRoot "I") tone := by
  obtain ⟨tone, ran, -, weight⟩ := weight_of_preferredTone "1" options_fifthThenRoot weighed_fifthThenRoot
    (fraction_given (1 / 2) [1 / 2] []) never_even half_by_weight
    (fraction_given (1 / 2) [] [.fraction]) rfl
  have used : UsedUp ((finite (1 / 2)).mul (totalWeight [("5", .finite 0), ("1", .finite 1)]))
      [("5", .finite 0), ("1", .finite 1)] := by
    unfold UsedUp
    decide +kernel
  rw [options_fifthThenRoot]
  exact ⟨weighed_fifthThenRoot, tone, ran, weight.mpr (.inl used)⟩

/-- At the lowest amount the fifth is taken, which no option offers with a weight. -/
theorem fifth_drawn_without_weight : Weighed (options fifthThenRoot "I") ∧
    OfferedWithWeight (options fifthThenRoot "I") "1" ∧
    (preferredTone fifthThenRoot "1" "I" 0).runFrom (given [1 / 2, 0] []) =
      (.ok "5", given [] [.fraction, .fraction]) ∧
    ¬ OfferedWithWeight (options fifthThenRoot "I") "5" := by
  have picked : (reached? ((finite 0).mul (totalWeight [("5", .finite 0), ("1", .finite 1)]))
      [("5", .finite 0), ("1", .finite 1)]).getD "5" = "5" := by decide +kernel
  have ran : (preferredTone fifthThenRoot "1" "I" 0).runFrom (given [1 / 2, 0] []) =
      (.ok "5", given [] [.fraction, .fraction]) := by
    refine (preferredTone_eq_ok options_fifthThenRoot).mpr
      ⟨_, _, _, fraction_given (1 / 2) [0] [], never_even, ?_⟩
    rw [options_fifthThenRoot, if_neg half_by_weight]
    exact ⟨_, _, fraction_given 0 [] [.fraction], rfl, picked⟩
  refine ⟨?_, ?_, ran, ?_⟩
  · rw [options_fifthThenRoot]
    exact weighed_fifthThenRoot
  · rw [options_fifthThenRoot]
    simp [OfferedWithWeight]
  · rw [options_fifthThenRoot]
    simp [OfferedWithWeight]

end BassLine

end Ostinato
