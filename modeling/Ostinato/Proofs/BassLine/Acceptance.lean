import Ostinato.Proofs.BassLine.Relevance
import Ostinato.Proofs.Number.Range
import Ostinato.Proofs.Random.Calls

/-!
# All or nothing

A bass line is made for all bars of a chart or not at all. It is made exactly where each choice is made and
fits the chart, each chord has a root, and a rule is enabled. Elsewhere the reasons are told, and nothing is
drawn.
-/

namespace Ostinato.BassLine

variable {s : Selection} {chart : Option Chart} {rules : List Rule} {source after : Source}

/-! ### Complete requests -/

/-- Whether a line can be made: each choice is made, the chart is the one chosen, each of its chords has a
root, and one of the rules is for this part, genre and level. -/
structure Complete (s : Selection) (chart : Option Chart) (rules : List Rule) : Prop where
  genre : ∃ genre, s.genre = some genre ∧ genre ≠ ""
  level : ∃ level, s.level = some level
  chosen : ∃ c, chart = some c ∧ s.progressionId = some c.id
  rootString : ∃ string, s.rootString = some string
  rooted : ∀ c ∈ chart, ∀ symbol ∈ c.bars.val, ∃ parts, ChordSymbol.read? symbol = some parts
  enabled : ∃ r ∈ rules, r.EnabledFor s

theorem activeRules_ne_nil_iff : s.activeRules rules ≠ [] ↔ ∃ r ∈ rules, r.EnabledFor s := by
  simp [Selection.activeRules_eq, List.filter_eq_nil_iff]

theorem judge_isValid_iff_complete (named : ∀ c ∈ chart, c.id ≠ "") :
    (judge s chart rules).isValid = true ↔ Complete s chart rules := by
  rw [judge_isValid_iff, Selection.check_isValid_iff, activeRules_ne_nil_iff]
  constructor
  · rintro ⟨⟨genre, level, ⟨c, given, same, -⟩, string, rooted⟩, -, enabled⟩
    exact ⟨genre, level, ⟨c, given, same⟩, string, rooted, enabled⟩
  · rintro ⟨genre, level, ⟨c, given, same⟩, string, rooted, r, member, able⟩
    exact ⟨⟨genre, level, ⟨c, given, same, named c given⟩, string, rooted⟩, List.ne_nil_of_mem member,
      r, member, able⟩

theorem warnings_judge : (judge s chart rules).warnings = [] := by
  unfold judge
  dsimp only
  split_ifs <;> rfl

/-! ### Draws that are finished -/

theorem exists_evenChance {randomness : Int} (least : 0 ≤ randomness) (most : randomness ≤ 100) :
    ∃ chance, evenChance randomness = .ok chance := by
  obtain ⟨chance, -, read, -⟩ :=
    Binary64.exists_quotient (n := randomness) (d := 100) (k := 7) (by omega) (by omega) (by omega)
  exact ⟨chance, read⟩

theorem exists_preferredTone {preferences : List Rule} {anchor chord : String} {randomness : Int} {n : Nat}
    (some_offered : options preferences chord ≠ []) (even : ∃ chance, evenChance randomness = .ok chance)
    (lasts : source.LastsFor (n + 2)) :
    ∃ tone after, (preferredTone preferences anchor chord randomness).runFrom source = (.ok tone, after) ∧
      after.LastsFor n := by
  obtain ⟨chance, even⟩ := even
  obtain ⟨o, others, offered⟩ := List.exists_cons_of_ne_nil some_offered
  obtain ⟨first, -, between, asked, -, lasts⟩ := Draw.exists_fraction lasts
  -- an even pick asks for a place among the options, a pick by weight for another fraction
  by_cases pick : first.below chance = true ∧ 1 < (options preferences chord).length
  · have positive : (0 : Int) < (options preferences chord).length := by omega
    obtain ⟨place, after, placed, lasts⟩ := Draw.exists_below positive lasts
    exact ⟨_, after, (preferredTone_eq_ok offered).mpr
      ⟨first, between, chance, asked, even, (if_pos pick).mpr ⟨place, placed, rfl⟩⟩, lasts⟩
  · obtain ⟨second, fraction, after, asked_again, real, lasts⟩ := Draw.exists_fraction lasts
    exact ⟨_, after, (preferredTone_eq_ok offered).mpr ⟨first, between, chance, asked, even,
      (if_neg pick).mpr ⟨second, fraction, asked_again, real, rfl⟩⟩, lasts⟩

/-- A beat takes no more than two answers. -/
theorem exists_drawnTone? {g : RuleGroups} {randomness : Int} {n : Nat}
    (even : ∃ chance, evenChance randomness = .ok chance) (p : Place) (source : Source)
    (lasts : source.LastsFor (n + 2)) :
    ∃ drawn after, (drawnTone? g randomness p).runFrom source = (.ok drawn, after) ∧ after.LastsFor n := by
  unfold drawnTone?
  split_ifs with none_offered
  · exact ⟨none, source, rfl, lasts.mono (by omega)⟩
  · obtain ⟨tone, after, ran, lasts⟩ := exists_preferredTone none_offered even lasts
    exact ⟨some tone, after, Draw.runFrom_map_eq_ok.mpr ⟨tone, ran, rfl⟩, lasts⟩

/-- A line over some bars takes no more than eight answers for each of them. -/
theorem exists_drawnTones {g : RuleGroups} {randomness : Int} {bars : List String}
    (even : ∃ chance, evenChance randomness = .ok chance) (lasts : source.LastsFor (8 * bars.length)) :
    ∃ tones after, (drawnTones g randomness bars).runFrom source = (.ok tones, after) := by
  have beats : (places bars).length = 4 * bars.length := length_placesAfter 0 none bars
  have enough : source.LastsFor (0 + 2 * (places bars).length) := lasts.mono (by omega)
  obtain ⟨tones, after, ran, -⟩ :=
    Draw.exists_mapM (fun p source n => exists_drawnTone? even p source) enough
  exact ⟨tones, after, ran⟩

/-! ### Lines -/

/-- Whether a line has a note on each beat of each bar of a chart, and no other notes. -/
structure Covers (line : BassLine) (c : Chart) : Prop where
  length_notes : line.notes.length = 4 * c.bars.val.length
  note : ∀ bar beat : Nat, 1 ≤ bar → bar ≤ c.bars.val.length → 1 ≤ beat → beat ≤ 4 →
    ∃ n ∈ line.notes, n.bar = bar ∧ n.beat = beat

theorem Shape.covers {line : BassLine} {c : Chart} (shape : Shape s c.bars.val rules line) :
    line.Covers c where
  length_notes := shape.length_notes
  note := by
    intro bar beat bar_pos bar_le beat_pos beat_le
    have within : bar - 1 < c.bars.val.length := by omega
    obtain ⟨n, found, bar_eq, beat_eq, -⟩ :=
      shape.note bar beat _ bar_pos (List.getElem?_eq_getElem within) beat_pos beat_le
    exact ⟨n, List.mem_of_getElem? found, bar_eq, beat_eq⟩

/-- A line that is made is valid exactly for a complete request, where charts have an id and the randomness
is a percentage. A line that is not valid has reasons and nothing else, and leaves its source as it was; one
that is valid has no errors, and notes for all bars. A source that lasts for the line keeps it from failing,
and without a complete request there is nothing to last for. -/
theorem all_or_nothing {s : Selection} {chart : Option Chart} {rules : List Rule} {source : Source}
    (named : ∀ c ∈ chart, c.id ≠ "") (percent : 0 ≤ s.randomness ∧ s.randomness ≤ 100) :
    (∀ line after, (make s chart rules).runFrom source = (.ok line, after) →
      (line.verdict.isValid = true ↔ Complete s chart rules) ∧
      (line.verdict.isValid = false → line.verdict.errors ≠ [] ∧ line.verdict.warnings = [] ∧
        line.notes = [] ∧ line.traces = [] ∧ after = source) ∧
      (line.verdict.isValid = true →
        line.verdict.errors = [] ∧ ∃ c, chart = some c ∧ line.Covers c)) ∧
    ((Complete s chart rules → ∀ c ∈ chart, source.LastsFor (8 * c.bars.val.length)) →
      ∃ line after, (make s chart rules).runFrom source = (.ok line, after)) := by
  rw [← judge_isValid_iff_complete named]
  cases accepted : (judge s chart rules).isValid with
  | false =>
    have told : (judge s chart rules).errors ≠ [] := List.isEmpty_eq_false_iff.mp accepted
    rw [make_of_invalid accepted]
    refine ⟨fun line after made => ?_, fun _ => ⟨_, source, rfl⟩⟩
    obtain ⟨rfl, rfl⟩ := Draw.runFrom_pure_eq_ok.mp made
    rw [refused, accepted]
    exact ⟨Iff.rfl, fun _ => ⟨told, warnings_judge, rfl, rfl, rfl⟩,
      fun valid => absurd valid Bool.false_ne_true⟩
  | true =>
    obtain ⟨c, rfl, rooted⟩ := exists_chart_of_valid accepted
    have errors : (judge s (some c) rules).errors = [] := List.isEmpty_iff.mp accepted
    rw [make_of_valid accepted]
    refine ⟨fun line after made => ?_, fun lasts => ?_⟩
    · obtain ⟨tones, ran, rfl⟩ := Draw.runFrom_map_eq_ok.mp made
      have valid : (setDown (s.groups rules) (judge s (some c) rules) c.bars.val tones).verdict.isValid =
          true := accepted
      rw [valid]
      exact ⟨Iff.rfl, fun invalid => absurd invalid.symm Bool.false_ne_true,
        fun _ => ⟨errors, c, rfl, (shape_setDown rooted (forall₂_offered ran)).covers⟩⟩
    · have even := exists_evenChance percent.1 percent.2
      obtain ⟨tones, after, ran⟩ := exists_drawnTones even (lasts rfl c rfl)
      exact ⟨_, after, Draw.runFrom_map_eq_ok.mpr ⟨tones, ran, rfl⟩⟩

/-- The request for two bars is complete, so that a seeded source makes the line, and without rules nothing is
drawn. -/
theorem all_or_nothing_twoBars :
    (∃ line after, (make player (some twoBars) tonesOfTwoBars).runFrom (.seeded (.seeded 7)) =
        (.ok line, after) ∧ line.verdict.isValid = true ∧ line.Covers twoBars) ∧
      ∃ line, (make player (some twoBars) []).runFrom twoPicks = (.ok line, twoPicks) ∧
        line.verdict.errors ≠ [] ∧ line.notes = [] := by
  have named : ∀ c ∈ some twoBars, c.id ≠ "" := by simp [twoBars]
  have percent : 0 ≤ player.randomness ∧ player.randomness ≤ 100 := by decide
  constructor
  · have complete : Complete player (some twoBars) tonesOfTwoBars :=
      (judge_isValid_iff_complete named).mp (by decide +kernel)
    obtain ⟨outcome, made⟩ := @all_or_nothing _ _ tonesOfTwoBars (.seeded (.seeded 7)) named percent
    obtain ⟨line, after, made⟩ := made fun _ c _ => .seeded _
    obtain ⟨valid_iff, -, whole⟩ := outcome line after made
    obtain ⟨-, c, given, covers⟩ := whole (valid_iff.mpr complete)
    obtain rfl := Option.some.inj given
    exact ⟨line, after, made, valid_iff.mpr complete, covers⟩
  · have incomplete : ¬Complete player (some twoBars) [] :=
      fun complete => List.not_mem_nil complete.enabled.choose_spec.1
    obtain ⟨outcome, made⟩ := @all_or_nothing _ _ [] twoPicks named percent
    obtain ⟨line, after, made⟩ := made fun complete => absurd complete incomplete
    obtain ⟨valid_iff, nothing, -⟩ := outcome line after made
    have invalid := Bool.eq_false_iff.mpr fun valid => incomplete (valid_iff.mp valid)
    obtain ⟨errors, -, notes, -, rfl⟩ := nothing invalid
    exact ⟨line, made, errors, notes⟩

end Ostinato.BassLine
