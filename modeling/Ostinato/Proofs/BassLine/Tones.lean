import Ostinato.BassLine
import Ostinato.Proofs.Random.Draw
import Ostinato.Proofs.RuleGroups
import Ostinato.Proofs.Verdict

/-!
# Tones of bass lines

A line is drawn first and then set down: a tone is drawn on each beat where preferences offer any, and all
notes and traces follow from the tones drawn. A tone that is drawn is one of those that are offered.
-/

namespace Ostinato

/-- Whether a rule fires on a beat. -/
def BassLine.Place.fires (p : Place) (r : Rule) : Bool := r.trigger.fires p.beat p.chord p.previous

namespace RuleGroups

variable (g : RuleGroups) (p : BassLine.Place)

/-- The rules that fire on a beat. -/
def on : RuleGroups := g.firing p.beat p.chord p.previous

theorem constraints_on : (g.on p).constraints = g.constraints.filter p.fires := rfl

theorem anchors_on : (g.on p).anchors = g.anchors.filter p.fires := rfl

theorem preferences_on : (g.on p).preferences = g.preferences.filter p.fires := rfl

/-- The rules that decide on a beat: anchors, then preferences. -/
def decidingOn : List Rule := (g.on p).anchors ++ (g.on p).preferences

/-- The tone that the anchors ask for on a beat. -/
def anchorOn : String := BassLine.anchorTone (g.on p).anchors p.chord

/-- The tones that preferences offer on a beat, with their weights. -/
def optionsOn : List (String × Binary64) := BassLine.options (g.on p).preferences p.chord

end RuleGroups

namespace BassLine

/-! ### Anchors -/

/-- The tone that an anchor names, if it names the root or the fifth. -/
def namedTone? (root : Numeral) (r : Rule) : Option Numeral :=
  if r.affects != .targetTone then none
  else if r.mentions "root" then some root
  else if mentionsFifth r then some root.fifth
  else none

/-- The first anchor that names a tone decides. -/
theorem anchorTone_eq (anchors : List Rule) (chord : String) :
    anchorTone anchors chord =
      ((anchors.filterMap (namedTone? (chordRoot chord))).head?.getD (chordRoot chord)).arabic := by
  rw [← List.headD_eq_head?_getD]
  rfl

/-! ### Drawing -/

theorem preferredTone_of_none {preferences : List Rule} {chord : String}
    (h : options preferences chord = []) (anchor : String) (randomness : Int) :
    preferredTone preferences anchor chord randomness = pure anchor := by
  rw [preferredTone, h]

/-- Where tones are offered, the anchor is not asked. -/
theorem preferredTone_of_some {preferences : List Rule} {chord : String}
    (h : options preferences chord ≠ []) (anchor anchor' : String) (randomness : Int) :
    preferredTone preferences anchor chord randomness =
      preferredTone preferences anchor' chord randomness := by
  obtain ⟨first, others, offered⟩ := List.exists_cons_of_ne_nil h
  simp only [preferredTone, offered]

theorem mem_of_reached? {remaining : Binary64} {offered : List (String × Binary64)} {tone : String}
    (h : reached? remaining offered = some tone) : tone ∈ offered.map (·.1) := by
  fun_induction reached? remaining offered with
  | case1 => cases h
  | case2 remaining degree weight rest left enough =>
    obtain rfl := Option.some.inj h
    exact List.mem_cons_self
  | case3 remaining degree weight rest left short ih => exact List.mem_cons_of_mem _ (ih h)

/-- How a tone is drawn: a first fraction decides between an even pick, by the place of an option, and a pick
by weight, by a second fraction. The first option stands in for a pick that finds none. -/
theorem preferredTone_eq_ok {preferences : List Rule} {anchor chord tone : String} {randomness : Int}
    {source after : Source} {first : String × Binary64} {others : List (String × Binary64)}
    (offered : options preferences chord = first :: others) :
    (preferredTone preferences anchor chord randomness).runFrom source = (.ok tone, after) ↔
      ∃ draw between chance, Draw.fraction.runFrom source = (.ok draw, between) ∧
        evenChance randomness = .ok chance ∧
        if draw.below chance = true ∧ 1 < (options preferences chord).length then
          ∃ place, (Draw.below (options preferences chord).length).runFrom between = (.ok place, after) ∧
            ((options preferences chord).getD place first).1 = tone
        else ∃ second fraction, Draw.fraction.runFrom between = (.ok second, after) ∧
          second.toReal = .ok fraction ∧
            (reached? (fraction.mul (totalWeight (options preferences chord)))
              (options preferences chord)).getD first.1 = tone := by
  simp only [preferredTone, offered, Draw.runFrom_bind_eq_ok, Draw.runFrom_ofResult_eq_ok,
    Failure.ofNumber_eq_ok, and_assoc, exists_and_left, exists_eq_left']
  refine exists_congr fun draw => exists_congr fun between => and_congr_right fun _ =>
    exists_congr fun chance => and_congr_right fun _ => ?_
  simp only [Bool.and_eq_true, decide_eq_true_iff]
  split_ifs
  · simp only [Draw.runFrom_bind_eq_ok, Draw.runFrom_pure_eq_ok, exists_eq_right_right]
  · simp only [Draw.runFrom_bind_eq_ok, Draw.runFrom_ofResult_eq_ok, Draw.runFrom_pure_eq_ok,
      Failure.ofNumber_eq_ok, and_assoc, exists_and_left, exists_eq_left']
    constructor
    · rintro ⟨second, _, asked, fraction, read, rfl, rfl⟩
      exact ⟨second, asked, fraction, read, rfl⟩
    · rintro ⟨second, asked, fraction, read, rfl⟩
      exact ⟨second, after, asked, fraction, read, rfl, rfl⟩

theorem mem_of_preferredTone {preferences : List Rule} {anchor chord : String} {randomness : Int}
    (some_offered : options preferences chord ≠ []) {source after : Source} {tone : String}
    (h : (preferredTone preferences anchor chord randomness).runFrom source = (.ok tone, after)) :
    tone ∈ (options preferences chord).map (·.1) := by
  obtain ⟨first, others, offered⟩ := List.exists_cons_of_ne_nil some_offered
  have first_mem : first.1 ∈ (options preferences chord).map (·.1) := by
    rw [offered]
    exact List.mem_cons_self
  obtain ⟨draw, between, chance, -, -, picked⟩ := (preferredTone_eq_ok offered).mp h
  split_ifs at picked
  · obtain ⟨place, -, rfl⟩ := picked
    rw [List.getD_eq_getElem?_getD]
    cases found : (options preferences chord)[place]? with
    | none => exact first_mem
    | some o => exact List.mem_map_of_mem (List.mem_of_getElem? found)
  · obtain ⟨second, fraction, -, -, rfl⟩ := picked
    cases found : reached? (fraction.mul (totalWeight (options preferences chord)))
        (options preferences chord) with
    | none => exact first_mem
    | some degree => exact mem_of_reached? found

/-- The tone that is drawn on a beat, if preferences offer any there. -/
def drawnTone? (g : RuleGroups) (randomness : Int) (p : Place) : Draw (Option String) :=
  if g.optionsOn p = [] then pure none
  else some <$> preferredTone (g.on p).preferences "" p.chord randomness

/-- What a tone drawn on a beat can be: one of those that are offered, and none only if there are none. -/
def Offered (g : RuleGroups) (p : Place) (drawn : Option String) : Prop :=
  (drawn = none ↔ g.optionsOn p = []) ∧ ∀ tone ∈ drawn, tone ∈ (g.optionsOn p).map (·.1)

theorem offered_of_drawnTone? {g : RuleGroups} {randomness : Int} {p : Place} {source after : Source}
    {drawn : Option String} (h : (drawnTone? g randomness p).runFrom source = (.ok drawn, after)) :
    Offered g p drawn := by
  unfold drawnTone? at h
  split_ifs at h with none_offered
  · obtain ⟨rfl, -⟩ := Draw.runFrom_pure_eq_ok.mp h
    simp [Offered, none_offered]
  · obtain ⟨tone, ran, rfl⟩ := Draw.runFrom_map_eq_ok.mp h
    have offered := mem_of_preferredTone none_offered ran
    simp only [Offered, reduceCtorEq, false_iff, Option.mem_def, Option.some.injEq, forall_eq']
    exact ⟨none_offered, offered⟩

/-- The tones of all beats. -/
def drawnTones (g : RuleGroups) (randomness : Int) (bars : List String) : Draw (List (Option String)) :=
  (places bars).mapM (drawnTone? g randomness)

theorem forall₂_offered {g : RuleGroups} {randomness : Int} {bars : List String} {source after : Source}
    {tones : List (Option String)}
    (h : (drawnTones g randomness bars).runFrom source = (.ok tones, after)) :
    List.Forall₂ (Offered g) (places bars) tones :=
  Draw.forall₂_of_mapM (fun _ _ _ _ _ drawn => offered_of_drawnTone? drawn) h

/-! ### Setting down -/

/-- The note of a beat and the rules behind it, from the tone that is drawn there. -/
def settle (g : RuleGroups) (p : Place) (drawn : Option String) : BassNote × List Rule :=
  let degree := drawn.getD (g.anchorOn p)
  ({ bar := p.bar
     beat := p.beat
     degree := degree
     octaveOffset := 0
     duration := duration (g.on p).constraints
     explanation := s!"Bar {p.bar} Beat {p.beat}: {degree} (chord: {p.chord})" }, g.decidingOn p)

theorem noteAt_eq (g : RuleGroups) (randomness : Int) (p : Place) :
    noteAt g randomness p = settle g p <$> drawnTone? g randomness p := by
  have steps : noteAt g randomness p = (fun degree => settle g p (some degree)) <$>
      preferredTone (g.on p).preferences (g.anchorOn p) p.chord randomness := by
    rw [map_eq_pure_bind]
    rfl
  rw [steps, drawnTone?]
  split_ifs with none_offered
  · rw [preferredTone_of_none none_offered, map_pure, map_pure]
    rfl
  · rw [preferredTone_of_some none_offered _ "", Functor.map_map]

/-- The line of a chart from the tones drawn on its beats. -/
def setDown (g : RuleGroups) (verdict : Verdict) (bars : List String) (tones : List (Option String)) :
    BassLine :=
  let notes := List.zipWith (settle g) (places bars) tones
  ⟨notes.map (·.1), tracesOf notes, { verdict with warnings := g.conflicts.map (·.warning) }⟩

theorem mapM_noteAt (g : RuleGroups) (randomness : Int) (bars : List String) :
    (places bars).mapM (noteAt g randomness) =
      List.zipWith (settle g) (places bars) <$> drawnTones g randomness bars := by
  have beats : noteAt g randomness = fun p => settle g p <$> drawnTone? g randomness p :=
    funext (noteAt_eq g randomness)
  rw [beats, Draw.mapM_map, drawnTones]

theorem make_of_valid {s : Selection} {chart : Chart} {rules : List Rule}
    (valid : (judge s (some chart) rules).isValid = true) :
    make s (some chart) rules =
      setDown (s.groups rules) (judge s (some chart) rules) chart.bars.val <$>
        drawnTones (s.groups rules) s.randomness chart.bars.val := by
  simp only [make, valid, mapM_noteAt, bind_map_left]
  rw [map_eq_pure_bind]
  rfl

theorem make_of_invalid {s : Selection} {chart : Option Chart} {rules : List Rule}
    (invalid : (judge s chart rules).isValid = false) :
    make s chart rules = pure (refused (judge s chart rules)) := by
  simp only [make, invalid]

/-- A line whose verdict is good was set down from tones that were drawn for its chart. -/
theorem exists_tones_of_make {s : Selection} {chart : Option Chart} {rules : List Rule}
    {source after : Source} {line : BassLine}
    (made : (make s chart rules).runFrom source = (.ok line, after)) (valid : line.verdict.isValid = true) :
    (judge s chart rules).isValid = true ∧ ∃ c tones, chart = some c ∧
      (drawnTones (s.groups rules) s.randomness c.bars.val).runFrom source = (.ok tones, after) ∧
      line = setDown (s.groups rules) (judge s chart rules) c.bars.val tones := by
  cases accepted : (judge s chart rules).isValid with
  | false =>
    rw [make_of_invalid accepted] at made
    obtain ⟨rfl, -⟩ := Draw.runFrom_pure_eq_ok.mp made
    exact absurd (accepted.symm.trans valid) Bool.false_ne_true
  | true =>
    obtain ⟨c, rfl, -⟩ := exists_chart_of_valid accepted
    rw [make_of_valid accepted] at made
    obtain ⟨tones, ran, rfl⟩ := Draw.runFrom_map_eq_ok.mp made
    exact ⟨rfl, c, tones, rfl, ran, rfl⟩

end BassLine

end Ostinato
