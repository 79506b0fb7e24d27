import Ostinato.Proofs.BassLine.Shape
import Ostinato.Proofs.Random.Calls

/-!
# First bars of bass lines

A line over some bars begins with the line over the first of them: bars are played one after another, and
what is drawn for a beat hangs on that beat and its source alone. A beat with options asks its source
twice, any other beat not at all.
-/

namespace Ostinato.BassLine

variable {g : RuleGroups} {randomness : Int} {p : Place} {source after : Source}

/-! ### Calls on a beat -/

/-- The calls for the tone of a beat, with their answers. -/
inductive Place.Asks (g : RuleGroups) (randomness : Int) (p : Place) : List (Call × Amount) → Prop
  | nothing (none_offered : g.optionsOn p = []) : p.Asks g randomness []
  | evenPick {chance : Binary64} {first second : Amount} (even : evenChance randomness = .ok chance)
      (low : first.below chance = true) (several : 1 < (g.optionsOn p).length) :
      p.Asks g randomness [(.fraction, first), (.below (g.optionsOn p).length, second)]
  | weightedPick {chance : Binary64} {first second : Amount} (some_offered : g.optionsOn p ≠ [])
      (even : evenChance randomness = .ok chance)
      (apart : ¬(first.below chance = true ∧ 1 < (g.optionsOn p).length)) :
      p.Asks g randomness [(.fraction, first), (.fraction, second)]

theorem asks_of_drawnTone? {drawn : Option String}
    (h : (drawnTone? g randomness p).runFrom source = (.ok drawn, after)) :
    ∃ answered, p.Asks g randomness answered ∧ source.Answers answered after := by
  unfold drawnTone? at h
  split_ifs at h with none_offered
  · obtain ⟨-, rfl⟩ := Draw.runFrom_pure_eq_ok.mp h
    exact ⟨[], .nothing none_offered, .nil source⟩
  · obtain ⟨tone, ran, -⟩ := Draw.runFrom_map_eq_ok.mp h
    obtain ⟨o, others, offered⟩ := List.exists_cons_of_ne_nil none_offered
    obtain ⟨first, between, chance, asked, even, picked⟩ := (preferredTone_eq_ok offered).mp ran
    split_ifs at picked with pick
    · obtain ⟨place, placed, -⟩ := picked
      exact ⟨_, .evenPick even pick.1 pick.2, .cons asked (.cons (Draw.ask_of_below placed) (.nil _))⟩
    · obtain ⟨second, fraction, asked_again, -⟩ := picked
      exact ⟨_, .weightedPick none_offered even pick, .cons asked (.cons asked_again (.nil _))⟩

/-! ### Beats of the first bars -/

theorem placesAfter_prefix (bar : Nat) (previous : Option String) {bars further : List String}
    (first_bars : bars <+: further) : placesAfter bar previous bars <+: placesAfter bar previous further := by
  obtain ⟨rest, rfl⟩ := first_bars
  induction bars generalizing bar previous with
  | nil => exact List.nil_prefix
  | cons chord bars ih =>
    rw [List.cons_append, placesAfter, placesAfter]
    exact (List.prefix_append_right_inj _).mpr (ih (bar + 1) (some chord))

/-- What is drawn for the first bars is drawn first. -/
theorem exists_first_tones {bars further : List String} {tones : List (Option String)}
    (first_bars : bars <+: further)
    (ran : (drawnTones g randomness further).runFrom source = (.ok tones, after)) :
    ∃ later early late between, places further = places bars ++ later ∧ tones = early ++ late ∧
      (drawnTones g randomness bars).runFrom source = (.ok early, between) ∧
      (later.mapM (drawnTone? g randomness)).runFrom between = (.ok late, after) := by
  obtain ⟨later, places_eq⟩ := placesAfter_prefix 0 none first_bars
  have split_ran := ran
  rw [drawnTones, places, ← places_eq, List.mapM_append] at split_ran
  obtain ⟨early, between, first, split_ran⟩ := Draw.runFrom_bind_eq_ok.mp split_ran
  obtain ⟨late, last, others, split_ran⟩ := Draw.runFrom_bind_eq_ok.mp split_ran
  obtain ⟨rfl, rfl⟩ := Draw.runFrom_pure_eq_ok.mp split_ran
  exact ⟨later, early, late, between, places_eq.symm, rfl, first, others⟩

theorem tracesOf_append (notes more : List (BassNote × List Rule)) :
    tracesOf (notes ++ more) = tracesOf notes ++ tracesOf more := by
  simp [tracesOf]

theorem setDown_prefix {bars further : List String} {later : List Place} {early : List (Option String)}
    (verdict verdict' : Verdict) (late : List (Option String))
    (places_eq : places further = places bars ++ later) (same : (places bars).length = early.length) :
    (setDown g verdict bars early).notes <+: (setDown g verdict' further (early ++ late)).notes ∧
    (setDown g verdict bars early).traces <+: (setDown g verdict' further (early ++ late)).traces := by
  have rows : List.zipWith (settle g) (places further) (early ++ late) =
      List.zipWith (settle g) (places bars) early ++ List.zipWith (settle g) later late := by
    rw [places_eq, List.zipWith_append same]
  simp only [setDown, rows, List.map_append, tracesOf_append]
  exact ⟨List.prefix_append _ _, List.prefix_append _ _⟩

theorem isValid_of_first_bars {s : Selection} {rules : List Rule} {short long : Chart}
    (same_id : short.id = long.id) (first_bars : short.bars.val <+: long.bars.val)
    (valid : (judge s (some long) rules).isValid = true) : (judge s (some short) rules).isValid = true := by
  rw [judge_isValid_iff, Selection.check_isValid_iff] at valid ⊢
  obtain ⟨⟨genre, level, ⟨c, given, chosen, named⟩, string, rooted⟩, enabled⟩ := valid
  obtain rfl := Option.some.inj given
  refine ⟨⟨genre, level, ⟨short, rfl, same_id ▸ chosen, same_id ▸ named⟩, string, ?_⟩, enabled⟩
  intro c given symbol written
  obtain rfl := Option.some.inj given
  exact rooted long rfl symbol (first_bars.subset written)

/-! ### Lines -/

/-- What is asked on the beats of a row of bars, beat by beat. A source that keeps a log has just these
calls added to it. -/
structure Rounds (g : RuleGroups) (randomness : Int) (bars : List String) (source after : Source)
    (rounds : List (List (Call × Amount))) : Prop where
  asked : List.Forall₂ (Place.Asks g randomness) (places bars) rounds
  answered : source.Answers rounds.flatten after
  logged : after.log? = source.log?.map (· ++ rounds.flatten.map (·.1))

theorem exists_rounds {l : List Place} {tones : List (Option String)}
    (ran : (l.mapM (drawnTone? g randomness)).runFrom source = (.ok tones, after)) :
    ∃ rounds, List.Forall₂ (Place.Asks g randomness) l rounds ∧ source.Answers rounds.flatten after :=
  Draw.exists_answered_of_mapM (fun _ _ _ _ drawn => asks_of_drawnTone? drawn) ran

/-- If a line over some bars is finished, so is the line over the first of them, from the same source. It is
the beginning of the longer line, and its calls are the first calls of the longer line. -/
theorem first_bars_kept {s : Selection} {rules : List Rule} {short long : Chart} {longer : BassLine}
    (same_id : short.id = long.id) (first_bars : short.bars.val <+: long.bars.val)
    (made : (make s (some long) rules).runFrom source = (.ok longer, after))
    (valid : longer.verdict.isValid = true) :
    ∃ line between rounds more,
      (make s (some short) rules).runFrom source = (.ok line, between) ∧ line.verdict.isValid = true ∧
      line.notes <+: longer.notes ∧ line.traces <+: longer.traces ∧
      Rounds (s.groups rules) s.randomness short.bars.val source between rounds ∧
      Rounds (s.groups rules) s.randomness long.bars.val source after (rounds ++ more) := by
  obtain ⟨accepted, c, tones, given, ran, rfl⟩ := exists_tones_of_make made valid
  obtain rfl := Option.some.inj given
  obtain ⟨later, early, late, between, places_eq, rfl, ran_early, ran_late⟩ :=
    exists_first_tones first_bars ran
  have accepted_short := isValid_of_first_bars same_id first_bars accepted
  have made_short := make_of_valid accepted_short
  obtain ⟨rounds, asked, answered⟩ := exists_rounds ran_early
  obtain ⟨more, asked_later, answered_later⟩ := exists_rounds ran_late
  have all_answered : source.Answers (rounds ++ more).flatten after := by
    rw [List.flatten_append]
    exact answered.append answered_later
  obtain ⟨notes, traces⟩ := setDown_prefix (g := s.groups rules) (judge s (some short) rules)
    (judge s (some long) rules) late places_eq (forall₂_offered ran_early).length_eq
  refine ⟨_, between, rounds, more, ?_, accepted_short, notes, traces,
    ⟨asked, answered, answered.log⟩, ⟨?_, all_answered, all_answered.log⟩⟩
  · rw [made_short]
    exact Draw.runFrom_map_eq_ok.mpr ⟨early, ran_early, rfl⟩
  · rw [places_eq]
    exact List.rel_append asked asked_later

/-! ### One bar of two -/

theorem one_bar : ["I"] ≠ [] := List.cons_ne_nil "I" []

/-- The first of two bars. -/
def firstBar : Chart := { twoBars with bars := ⟨["I"], one_bar⟩ }

theorem first_bar_kept :
    ∃ line longer between after,
      (make player (some firstBar) tonesOfTwoBars).runFrom twoPicks = (.ok line, between) ∧
      (make player (some twoBars) tonesOfTwoBars).runFrom twoPicks = (.ok longer, after) ∧
      line.notes <+: longer.notes ∧ line.traces <+: longer.traces ∧
      line.notes.length = 4 ∧ longer.notes.length = 8 ∧
      between.log? = some [.fraction, .below 2] ∧
      after.log? = some [.fraction, .below 2, .fraction, .fraction] := by
  have told : (((make player (some twoBars) tonesOfTwoBars).runFrom twoPicks).1.toOption.map
        (fun longer => (longer.verdict.isValid, longer.notes.length)),
      ((make player (some twoBars) tonesOfTwoBars).runFrom twoPicks).2.log?) =
      (some (true, 8), some [.fraction, .below 2, .fraction, .fraction]) := by decide +kernel
  have told_first : (((make player (some firstBar) tonesOfTwoBars).runFrom twoPicks).1.toOption.map
        (fun line => line.notes.length),
      ((make player (some firstBar) tonesOfTwoBars).runFrom twoPicks).2.log?) =
      (some 4, some [.fraction, .below 2]) := by decide +kernel
  generalize made : (make player (some twoBars) tonesOfTwoBars).runFrom twoPicks = run at told
  obtain ⟨result, after⟩ := run
  cases result with
  | error failure => cases told
  | ok longer =>
    obtain ⟨⟨valid, length⟩, log⟩ := by
      simpa only [Except.toOption, Option.map_some, Option.some.injEq, Prod.mk.injEq] using told
    have same_id : firstBar.id = twoBars.id := rfl
    have first_bars : firstBar.bars.val <+: twoBars.bars.val := ⟨["V7"], rfl⟩
    obtain ⟨line, between, rounds, more, made_first, -, notes, traces, -, -⟩ :=
      first_bars_kept same_id first_bars made valid
    rw [made_first] at told_first
    obtain ⟨length_first, log_first⟩ := by
      simpa only [Except.toOption, Option.map_some, Option.some.injEq, Prod.mk.injEq] using told_first
    exact ⟨line, longer, between, after, made_first, rfl, notes, traces, length_first, length, log_first,
      log⟩

end Ostinato.BassLine
