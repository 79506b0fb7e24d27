import Ostinato.Proofs.BassLine.Tones

/-!
# Shadowed anchors

What becomes of a bass line when the rules go that its conflicts report as shadowed. Nothing else is drawn
then, and a note differs only where no tone is offered and the anchors that are left ask for another one.
That is so where the anchor that stays names no tone but the one it shadows does.
-/

namespace Ostinato

/-! ### Rules without the shadowed ones -/

namespace Selection

variable {s : Selection} {rules : List Rule}

/-- Whether a rule is an anchor that a selection enables. -/
def contends (s : Selection) (r : Rule) : Bool := decide (r.role = .anchor ∧ r.EnabledFor s)

/-- The rules without the anchors that others shadow, where a selection enables both. -/
def withoutShadowed (s : Selection) (rules : List Rule) : List Rule :=
  AnchorConflict.unshadowed s.contends [] rules

theorem contends_iff {r : Rule} : s.contends r = true ↔ r.role = .anchor ∧ r.EnabledFor s :=
  decide_eq_true_iff

theorem anchors_groups : (s.groups rules).anchors = rules.filter s.contends :=
  RuleGroups.ofRole_activeRules .anchor s rules

theorem conflicts_groups :
    (s.groups rules).conflicts = AnchorConflict.after [] (s.groups rules).anchors := rfl

theorem contends_of_mem_anchors : ∀ r ∈ (s.groups rules).anchors, s.contends r = true := by
  intro r hr
  rw [anchors_groups] at hr
  exact List.of_mem_filter hr

theorem ofRole_withoutShadowed {role : Role} (h : role ≠ .anchor) :
    RuleGroups.ofRole role (s.activeRules (s.withoutShadowed rules)) =
      RuleGroups.ofRole role (s.activeRules rules) := by
  rw [RuleGroups.ofRole_activeRules, RuleGroups.ofRole_activeRules]
  refine AnchorConflict.filter_unshadowed_of_apart (fun r anchor same => ?_) [] rules
  have role_eq := (contends_iff.mp anchor).1
  exact h ((of_decide_eq_true same).1.symm.trans role_eq)

theorem constraints_withoutShadowed :
    (s.groups (s.withoutShadowed rules)).constraints = (s.groups rules).constraints :=
  ofRole_withoutShadowed (by decide)

theorem preferences_withoutShadowed :
    (s.groups (s.withoutShadowed rules)).preferences = (s.groups rules).preferences :=
  ofRole_withoutShadowed (by decide)

theorem anchors_withoutShadowed :
    (s.groups (s.withoutShadowed rules)).anchors =
      AnchorConflict.unshadowed s.contends [] (s.groups rules).anchors := by
  rw [anchors_groups, anchors_groups, withoutShadowed]
  exact AnchorConflict.filter_unshadowed (fun r h => h) [] rules

theorem conflicts_withoutShadowed : (s.groups (s.withoutShadowed rules)).conflicts = [] := by
  rw [conflicts_groups, anchors_withoutShadowed]
  exact AnchorConflict.after_unshadowed contends_of_mem_anchors

theorem withoutShadowed_sublist : (s.withoutShadowed rules).Sublist rules :=
  AnchorConflict.unshadowed_sublist [] rules

theorem perm_withoutShadowed :
    rules.Perm (s.withoutShadowed rules ++ (s.groups rules).conflicts.map (·.shadowed)) := by
  rw [conflicts_groups, anchors_groups]
  exact AnchorConflict.perm_unshadowed [] rules

theorem activeRules_withoutShadowed :
    s.activeRules (s.withoutShadowed rules) =
      AnchorConflict.unshadowed s.contends [] (s.activeRules rules) := by
  rw [activeRules_eq, activeRules_eq]
  refine AnchorConflict.filter_unshadowed (fun r h => ?_) [] rules
  exact decide_eq_true (contends_iff.mp h).2

end Selection

namespace BassLine

variable {s : Selection} {rules : List Rule} {g fewer : RuleGroups}

/-- The same selections are refused, for the same reasons. -/
theorem judge_withoutShadowed (chart : Option Chart) :
    judge s chart (s.withoutShadowed rules) = judge s chart rules := by
  have same (l : List Rule) :
      (AnchorConflict.unshadowed s.contends [] l).isEmpty = l.isEmpty := by
    rw [Bool.eq_iff_iff, List.isEmpty_iff, List.isEmpty_iff, AnchorConflict.unshadowed_eq_nil_iff]
  rw [judge, judge, Selection.activeRules_withoutShadowed, Selection.withoutShadowed, same, same]

/-! ### Tones without the shadowed anchors -/

theorem optionsOn_congr (same : fewer.preferences = g.preferences) (p : Place) :
    fewer.optionsOn p = g.optionsOn p := by
  rw [RuleGroups.optionsOn, RuleGroups.optionsOn, RuleGroups.preferences_on, same,
    RuleGroups.preferences_on]

theorem drawnTones_congr (same : fewer.preferences = g.preferences) (randomness : Int)
    (bars : List String) : drawnTones fewer randomness bars = drawnTones g randomness bars := by
  have each : drawnTone? fewer randomness = drawnTone? g randomness := by
    funext p
    rw [drawnTone?, drawnTone?, optionsOn_congr same, RuleGroups.preferences_on, same,
      RuleGroups.preferences_on]
  rw [drawnTones, drawnTones, each]

theorem settle_note_eq_iff (same : fewer.constraints = g.constraints) (p : Place)
    (drawn : Option String) :
    (settle fewer p drawn).1 = (settle g p drawn).1 ↔
      (drawn = none → fewer.anchorOn p = g.anchorOn p) := by
  have lasts : duration (fewer.on p).constraints = duration (g.on p).constraints := by
    rw [RuleGroups.constraints_on, same, RuleGroups.constraints_on]
  constructor
  · rintro h rfl
    exact congrArg BassNote.degree h
  · intro h
    cases drawn with
    | none => simp only [settle, lasts, Option.getD_none, h rfl]
    | some tone => simp only [settle, lasts, Option.getD_some]

theorem map_settle_eq_iff {l : List Place} {tones : List (Option String)}
    (constraints : fewer.constraints = g.constraints)
    (offered : List.Forall₂ (Offered g) l tones) :
    (List.zipWith (settle fewer) l tones).map (·.1) = (List.zipWith (settle g) l tones).map (·.1) ↔
      ∀ p ∈ l, g.optionsOn p = [] → fewer.anchorOn p = g.anchorOn p := by
  induction offered with
  | nil => simp
  | cons first others ih =>
    rw [List.zipWith_cons_cons, List.zipWith_cons_cons, List.map_cons, List.map_cons, List.cons.injEq,
      ih, settle_note_eq_iff constraints, first.1, List.forall_mem_cons]

/-! ### Anchors that name a tone -/

/-- Whether an anchor names a tone, the root or the fifth. -/
def NamesTone (r : Rule) : Prop :=
  r.affects = .targetTone ∧ (r.mentions "root" = true ∨ mentionsFifth r = true)

instance (r : Rule) : Decidable (NamesTone r) := inferInstanceAs (Decidable (_ ∧ _))

theorem isSome_namedTone? (root : Numeral) (r : Rule) :
    (namedTone? root r).isSome = true ↔ NamesTone r := by
  unfold namedTone? NamesTone
  split_ifs <;> simp_all

/-- Where each shadowed anchor that names a tone is shadowed by one that names a tone, the anchors that are
left ask for the same tones. -/
theorem anchorOn_withoutShadowed
    (named : ∀ k ∈ (s.groups rules).conflicts, NamesTone k.shadowed → NamesTone k.kept) (p : Place) :
    (s.groups (s.withoutShadowed rules)).anchorOn p = (s.groups rules).anchorOn p := by
  let answer (r : Rule) : Option Numeral :=
    if p.fires r then namedTone? (chordRoot p.chord) r else none
  have answered (r : Rule) : (answer r).isSome = true ↔ p.fires r = true ∧ NamesTone r := by
    rw [← isSome_namedTone? (chordRoot p.chord) r]
    simp only [answer]
    split_ifs with fires <;> simp [fires]
  have first (g : RuleGroups) : g.anchorOn p =
      ((g.anchors.filterMap answer).head?.getD (chordRoot p.chord)).arabic := by
    rw [RuleGroups.anchorOn, anchorTone_eq, RuleGroups.anchors_on, List.filterMap_filter]
  have kept : ∀ k ∈ (s.groups rules).conflicts,
      (answer k.shadowed).isSome = true → (answer k.kept).isSome = true := by
    intro k hk
    -- both anchors of a conflict have one trigger, so they fire on the same beats
    have rivals := AnchorConflict.rivals_of_mem_after hk
    simp only [AnchorConflict.rivals, Bool.and_eq_true, beq_iff_eq] at rivals
    rw [answered, answered, Place.fires, Place.fires, rivals.1]
    exact fun names => ⟨names.1, named k hk names.2⟩
  have same := AnchorConflict.head?_filterMap_unshadowed Selection.contends_of_mem_anchors kept
  rw [List.nil_append, List.nil_append] at same
  rw [first, first, Selection.anchors_withoutShadowed, same]

/-! ### Lines without the shadowed anchors -/

variable {chart : Option Chart}

/-- Without the shadowed anchors the same tones are drawn; they are set down by what is left. -/
theorem make_withoutShadowed {c : Chart} (valid : (judge s (some c) rules).isValid = true) :
    make s (some c) (s.withoutShadowed rules) =
      setDown (s.groups (s.withoutShadowed rules)) (judge s (some c) rules) c.bars.val <$>
        drawnTones (s.groups rules) s.randomness c.bars.val := by
  rw [← judge_withoutShadowed] at valid
  rw [make_of_valid valid, judge_withoutShadowed,
    drawnTones_congr Selection.preferences_withoutShadowed]

/-- The shadowed anchors may go: as many tones are drawn, and a run that fails fails in the same way. A note
is another one exactly where no tone is offered and what is left of the anchors asks for another one; that
is nowhere so if each shadowed anchor that names a tone is shadowed by one that names a tone. -/
theorem notes_withoutShadowed (s : Selection) (chart : Option Chart) (rules : List Rule)
    (source : Source) :
    (s.withoutShadowed rules).Sublist rules ∧
    rules.Perm (s.withoutShadowed rules ++ (s.groups rules).conflicts.map (·.shadowed)) ∧
    (s.groups (s.withoutShadowed rules)).conflicts = [] ∧
    (∀ failure after, (make s chart rules).runFrom source = (.error failure, after) →
      (make s chart (s.withoutShadowed rules)).runFrom source = (.error failure, after)) ∧
    ∀ line after, (make s chart rules).runFrom source = (.ok line, after) →
      ∃ left, (make s chart (s.withoutShadowed rules)).runFrom source = (.ok left, after) ∧
        (left.notes = line.notes ↔ (line.verdict.isValid = true →
          ∀ c ∈ chart, ∀ p ∈ places c.bars.val, (s.groups rules).optionsOn p = [] →
            (s.groups (s.withoutShadowed rules)).anchorOn p = (s.groups rules).anchorOn p)) ∧
        ((∀ k ∈ (s.groups rules).conflicts, NamesTone k.shadowed → NamesTone k.kept) →
          left.notes = line.notes) := by
  refine ⟨Selection.withoutShadowed_sublist, Selection.perm_withoutShadowed,
    Selection.conflicts_withoutShadowed, ?_⟩
  cases valid : (judge s chart rules).isValid with
  | false =>
    have invalid := valid
    rw [← judge_withoutShadowed] at invalid
    rw [make_of_invalid valid, make_of_invalid invalid, judge_withoutShadowed]
    refine ⟨fun failure after h => h, fun line after h => ⟨line, h, ?_⟩⟩
    obtain ⟨rfl, -⟩ := Draw.runFrom_pure_eq_ok.mp h
    simp [refused, valid]
  | true =>
    obtain ⟨c, rfl, -⟩ := exists_chart_of_valid valid
    rw [make_withoutShadowed valid, make_of_valid valid]
    constructor
    · intro failure after h
      rw [Draw.runFrom_map_eq_error] at h ⊢
      exact h
    · intro line after h
      obtain ⟨tones, ran, rfl⟩ := Draw.runFrom_map_eq_ok.mp h
      refine ⟨_, Draw.runFrom_map_eq_ok.mpr ⟨tones, ran, rfl⟩, ?_⟩
      have same := map_settle_eq_iff Selection.constraints_withoutShadowed (forall₂_offered ran)
      constructor
      · refine same.trans ⟨?_, fun asked => asked valid c rfl⟩
        rintro asked - c' ⟨⟩
        exact asked
      · exact fun named => same.mpr fun p _ _ => anchorOn_withoutShadowed named p

/-! ### Two anchors on each beat -/

/-- An anchor for each beat. -/
def onEachBeat (id action : String) : Rule :=
  ⟨id, .bass, ["blues"], 1, none, .anchor, .targetTone, .always, action, none⟩

def ground : Rule := onEachBeat "ground" "play root"
def hold : Rule := onEachBeat "hold" "stay low"
def lift : Rule := onEachBeat "lift" "play fifth"

def oneBar : Chart := ⟨"one-bar", [], ⟨["I"], by decide⟩, ""⟩

def beginner : Selection := ⟨some "blues", some 1, some "one-bar", some 1, 50, .bass⟩

/-- The anchor that wins names the root, and it is the root that sounds. -/
theorem ground_wins :
    ∃ line left source,
      beginner.withoutShadowed [ground, lift] = [ground] ∧
      (make beginner (some oneBar) [ground, lift]).runFrom source = (.ok line, source) ∧
      (make beginner (some oneBar) [ground]).runFrom source = (.ok left, source) ∧
      line.verdict.warnings =
        ["Anchor rules 'ground' and 'lift' both target 'always:targetTone'; 'ground' wins"] ∧
      line.notes.map (·.degree) = ["1", "1", "1", "1"] ∧
      left.notes = line.notes := by
  have fewer : beginner.withoutShadowed [ground, lift] = [ground] := by decide +kernel
  obtain ⟨left, ran, -, same⟩ := (notes_withoutShadowed beginner (some oneBar) [ground, lift]
    (.scripted [] [])).2.2.2.2 _ _ rfl
  rw [fewer] at ran
  exact ⟨_, left, _, fewer, rfl, ran, by decide +kernel, by decide +kernel, same (by decide +kernel)⟩

/-- The anchor that wins names no tone, so that the one it shadows decides. -/
theorem hold_does_not_win :
    ∃ line left source,
      (beginner.groups [hold, lift]).conflicts = [⟨hold, lift⟩] ∧
      beginner.withoutShadowed [hold, lift] = [hold] ∧
      (make beginner (some oneBar) [hold, lift]).runFrom source = (.ok line, source) ∧
      (make beginner (some oneBar) [hold]).runFrom source = (.ok left, source) ∧
      line.verdict.warnings =
        ["Anchor rules 'hold' and 'lift' both target 'always:targetTone'; 'hold' wins"] ∧
      line.notes.map (·.degree) = ["5", "5", "5", "5"] ∧
      left.notes.map (·.degree) = ["1", "1", "1", "1"] ∧
      left.notes ≠ line.notes := by
  refine ⟨_, _, .scripted [] [], by decide +kernel, by decide +kernel, rfl, rfl, by decide +kernel,
    by decide +kernel, by decide +kernel, fun same => ?_⟩
  have degrees := congrArg (List.map BassNote.degree) same
  exact absurd degrees (by decide +kernel)

end BassLine

end Ostinato
