import Ostinato.Proofs.BassLine.Tones

/-!
# Shape of bass lines

An accepted line has a note on each of the four beats of each bar, on the root of the bar's chord or on the
fifth above it. Behind each note stand the anchors and then the preferences that the selection enables and
that fire there.
-/

namespace Ostinato

/-! ### Rules that fire -/

/-- Whether a trigger fires on a beat of a row of bars, bar and beat counted from one. -/
def Trigger.FiresOn (bars : List String) (bar beat : Nat) : Trigger → Prop
  | always => True
  | beat1 => beat = 1
  | beat3 => beat = 3
  | chordChange => 1 < bar ∧ bars[bar - 1]? ≠ bars[bar - 2]?

instance (bars : List String) (bar beat : Nat) (t : Trigger) : Decidable (t.FiresOn bars bar beat) :=
  match t with
  | .always => inferInstanceAs (Decidable True)
  | .beat1 => inferInstanceAs (Decidable (beat = 1))
  | .beat3 => inferInstanceAs (Decidable (beat = 3))
  | .chordChange => inferInstanceAs (Decidable (_ ∧ _))

namespace Selection

variable (s : Selection) (rules : List Rule) (bars : List String) (bar beat : Nat)

/-- The rules of a role that a selection enables and that fire on a beat. -/
def rulesOn (role : Role) : List Rule :=
  rules.filter fun r => decide (r.role = role ∧ r.EnabledFor s ∧ r.trigger.FiresOn bars bar beat)

/-- The rules behind the note of a beat: anchors, then preferences. -/
def rulesBehind : List Rule :=
  s.rulesOn rules bars bar beat .anchor ++ s.rulesOn rules bars bar beat .preference

theorem rulesBehind_ne_nil_iff :
    s.rulesBehind rules bars bar beat ≠ [] ↔
      ∃ r ∈ rules, (r.role = .anchor ∨ r.role = .preference) ∧ r.EnabledFor s ∧
        r.trigger.FiresOn bars bar beat := by
  rw [← List.length_pos_iff, List.length_pos_iff_exists_mem]
  simp only [rulesBehind, rulesOn, List.mem_append, List.mem_filter, decide_eq_true_iff, ← and_or_left,
    ← or_and_right]

end Selection

namespace BassLine

/-! ### Beats of a row of bars -/

/-- The chord of the bar before one, and another one before the first bar. -/
def chordBefore (first : Option String) (bars : List String) : Nat → Option String
  | 0 => first
  | i + 1 => bars[i]?

theorem chordBefore_cons_succ (first : Option String) (chord : String) (rest : List String) (i : Nat) :
    chordBefore first (chord :: rest) (i + 1) = chordBefore (some chord) rest i := by
  cases i with
  | zero => rfl
  | succ i => rfl

theorem length_placesAfter (bar : Nat) (previous : Option String) (bars : List String) :
    (placesAfter bar previous bars).length = 4 * bars.length := by
  induction bars generalizing bar previous with
  | nil => rfl
  | cons chord rest ih =>
    rw [placesAfter, List.length_append, ih, List.length_map, List.length_range, List.length_cons,
      beatsPerBar]
    omega

theorem getElem?_placesAfter (bar : Nat) (previous : Option String) (bars : List String) (n : Nat) :
    (placesAfter bar previous bars)[n]? = bars[n / 4]?.map fun chord =>
      ⟨bar + n / 4 + 1, n % 4 + 1, chord, chordBefore previous bars (n / 4)⟩ := by
  induction bars generalizing bar previous n with
  | nil => rfl
  | cons chord rest ih =>
    rw [placesAfter, List.getElem?_append, List.length_map, List.length_range, beatsPerBar]
    -- a beat of the first bar, or one of the bars after it
    split_ifs with first
    · have bar_eq : n / 4 = 0 := Nat.div_eq_of_lt first
      simp [bar_eq, first, Nat.mod_eq_of_lt first, chordBefore]
    · obtain ⟨m, rfl⟩ : ∃ m, n = m + 4 := ⟨n - 4, by omega⟩
      have bar_eq : (m + 4) / 4 = m / 4 + 1 := by omega
      rw [Nat.add_sub_cancel, ih, bar_eq, List.getElem?_cons_succ, Nat.add_mod_right]
      simp only [chordBefore_cons_succ, Nat.add_assoc, Nat.add_comm 1]

/-- Whether a place is a beat of a row of bars. -/
structure Place.On (p : Place) (bars : List String) : Prop where
  bar_pos : 1 ≤ p.bar
  beat_pos : 1 ≤ p.beat
  beat_le : p.beat ≤ 4
  chord : bars[p.bar - 1]? = some p.chord
  previous : p.previous = chordBefore none bars (p.bar - 1)

variable {bars : List String} {p : Place}

theorem getElem?_places (h : p.On bars) : (places bars)[4 * (p.bar - 1) + (p.beat - 1)]? = some p := by
  have bar_pos := h.bar_pos
  have beat_pos := h.beat_pos
  have beat_le := h.beat_le
  have bar_eq : (4 * (p.bar - 1) + (p.beat - 1)) / 4 = p.bar - 1 := by omega
  have beat_eq : (4 * (p.bar - 1) + (p.beat - 1)) % 4 = p.beat - 1 := by omega
  rw [places, getElem?_placesAfter, bar_eq, beat_eq, h.chord, Option.map_some, ← h.previous,
    Nat.zero_add, Nat.sub_add_cancel bar_pos, Nat.sub_add_cancel beat_pos]

theorem on_of_getElem?_places {n : Nat} (h : (places bars)[n]? = some p) :
    p.On bars ∧ p.bar = n / 4 + 1 ∧ p.beat = n % 4 + 1 := by
  rw [places, getElem?_placesAfter] at h
  obtain ⟨chord, found, rfl⟩ := Option.map_eq_some_iff.mp h
  refine ⟨⟨?_, ?_, ?_, ?_, ?_⟩, ?_, ?_⟩
  · dsimp only; omega
  · dsimp only; omega
  · dsimp only; omega
  · simpa using found
  · simp
  · simp
  · rfl

theorem mem_places_iff : p ∈ places bars ↔ p.On bars := by
  constructor
  · intro h
    obtain ⟨n, found⟩ := List.mem_iff_getElem?.mp h
    exact (on_of_getElem?_places found).1
  · exact fun h => List.mem_of_getElem? (getElem?_places h)

/-- The beats of a row of bars stand in their order. -/
theorem pairwise_places :
    (places bars).Pairwise fun p q => p.bar < q.bar ∨ p.bar = q.bar ∧ p.beat < q.beat := by
  refine List.pairwise_iff_getElem.mpr fun i j hi hj earlier => ?_
  obtain ⟨-, first_bar, first_beat⟩ := on_of_getElem?_places (List.getElem?_eq_getElem hi)
  obtain ⟨-, second_bar, second_beat⟩ := on_of_getElem?_places (List.getElem?_eq_getElem hj)
  omega

/-! ### Rules on a beat -/

variable {s : Selection} {rules : List Rule}

theorem Place.On.fires_iff (h : p.On bars) (named : "" ∉ bars) (r : Rule) :
    p.fires r = true ↔ r.trigger.FiresOn bars p.bar p.beat := by
  rw [Place.fires]
  cases r.trigger with
  | always => simp [Trigger.fires, Trigger.FiresOn]
  | beat1 =>
    simp only [Trigger.fires, Trigger.FiresOn, beq_iff_eq]
    omega
  | beat3 =>
    simp only [Trigger.fires, Trigger.FiresOn, beq_iff_eq]
    omega
  | chordChange =>
    obtain ⟨i, bar_eq⟩ : ∃ i, p.bar = i + 1 := ⟨p.bar - 1, (Nat.sub_add_cancel h.bar_pos).symm⟩
    have chord := h.chord
    have previous := h.previous
    simp only [Trigger.fires, Trigger.FiresOn, bar_eq, Nat.add_sub_cancel] at chord previous ⊢
    cases i with
    | zero => simp [previous, chordBefore]
    | succ i =>
      have within : i < bars.length := by
        have := (List.getElem?_eq_some_iff.mp chord).1
        omega
      have before_named : bars[i] ≠ "" := fun h => named (h ▸ List.getElem_mem within)
      -- the symbol of the bar before is a chord, so all that counts is whether it is another one
      rw [chordBefore, List.getElem?_eq_getElem within] at previous
      simp [previous, chord, List.getElem?_eq_getElem within, before_named]

theorem filter_fires_ofRole (h : p.On bars) (named : "" ∉ bars) (role : Role) :
    (RuleGroups.ofRole role (s.activeRules rules)).filter p.fires =
      s.rulesOn rules bars p.bar p.beat role := by
  rw [RuleGroups.ofRole_activeRules, List.filter_filter]
  refine List.filter_congr fun r _ => ?_
  rw [Bool.eq_iff_iff, Bool.and_eq_true, decide_eq_true_iff, decide_eq_true_iff, h.fires_iff named,
    and_comm, and_assoc]

theorem decidingOn_groups (h : p.On bars) (named : "" ∉ bars) :
    (s.groups rules).decidingOn p = s.rulesBehind rules bars p.bar p.beat := by
  rw [Selection.rulesBehind, ← filter_fires_ofRole h named, ← filter_fires_ofRole h named]
  rfl

/-! ### Degrees on a beat -/

/-- The root of a chord and the fifth above it. -/
def ChordTone (symbol degree : String) : Prop :=
  degree = (chordRoot symbol).arabic ∨ degree = fifthAbove (chordRoot symbol).arabic

theorem fifthAbove_arabic (n : Numeral) : fifthAbove n.arabic = n.fifth.arabic := by
  cases n <;> rfl

theorem chordTone_anchorTone (anchors : List Rule) (chord : String) :
    ChordTone chord (anchorTone anchors chord) := by
  rw [anchorTone_eq, ChordTone, fifthAbove_arabic]
  cases found : (anchors.filterMap (namedTone? (chordRoot chord))).head? with
  | none => exact .inl rfl
  | some n =>
    obtain ⟨r, -, named⟩ := List.mem_filterMap.mp (List.mem_of_mem_head? found)
    unfold namedTone? at named
    split_ifs at named <;> obtain rfl := Option.some.inj named
    · exact .inl rfl
    · exact .inr rfl

theorem chordTone_of_mem_options {preferences : List Rule} {chord tone : String}
    (h : tone ∈ (options preferences chord).map (·.1)) : ChordTone chord tone := by
  obtain ⟨o, offered, rfl⟩ := List.mem_map.mp h
  obtain ⟨r, -, offered⟩ := List.mem_flatMap.mp offered
  rw [ChordTone, fifthAbove_arabic]
  simp only [optionsOf, List.mem_ite_nil_left, List.mem_append, List.mem_ite_nil_right,
    List.mem_singleton] at offered
  obtain ⟨-, ⟨-, rfl⟩ | ⟨-, rfl⟩⟩ := offered
  · exact .inr rfl
  · exact .inl rfl

/-! ### Notes and traces -/

variable {g : RuleGroups}

/-- Whether a note is one that a beat can have. -/
def Place.Plays (p : Place) (n : BassNote) : Prop :=
  n.bar = p.bar ∧ n.beat = p.beat ∧ n.duration = .finite 1 ∧ n.octaveOffset = 0 ∧
    ChordTone p.chord n.degree

/-- All notes are quarter notes, whatever the constraints ask for. -/
theorem duration_eq (constraints : List Rule) : duration constraints = .finite 1 := ite_self _

theorem plays_settle {drawn : Option String} (offered : Offered g p drawn) :
    p.Plays (settle g p drawn).1 := by
  refine ⟨rfl, rfl, duration_eq _, rfl, ?_⟩
  cases drawn with
  | none => exact chordTone_anchorTone _ _
  | some tone => exact chordTone_of_mem_options (offered.2 tone rfl)

theorem forall₂_plays {l : List Place} {tones : List (Option String)}
    (offered : List.Forall₂ (Offered g) l tones) :
    List.Forall₂ Place.Plays l ((List.zipWith (settle g) l tones).map (·.1)) := by
  induction offered with
  | nil => exact .nil
  | cons first others ih => exact .cons (plays_settle first) ih

theorem snd_settle (drawn : Option String) : (settle g p drawn).2 = g.decidingOn p := rfl

/-- The traces do not depend on the tones that are drawn. -/
theorem tracesOf_zipWith {l : List Place} {tones : List (Option String)} (h : l.length = tones.length) :
    tracesOf (List.zipWith (settle g) l tones) =
      (l.filter fun p => !(g.decidingOn p).isEmpty).map fun p => ⟨p.bar, p.beat, g.decidingOn p⟩ := by
  induction l generalizing tones with
  | nil => rfl
  | cons p l ih =>
    cases tones with
    | nil => cases h
    | cons drawn tones =>
      have others := ih (Nat.succ.inj h)
      rw [tracesOf] at others ⊢
      rw [List.zipWith_cons_cons, List.filter_cons, List.filter_cons, snd_settle]
      split_ifs
      · rw [List.map_cons, List.map_cons, others]
        rfl
      · exact others

/-! ### Accepted lines -/

/-- What an accepted line of a row of bars is. -/
structure Shape (s : Selection) (bars : List String) (rules : List Rule) (line : BassLine) : Prop where
  length_notes : line.notes.length = 4 * bars.length
  note : ∀ (bar beat : Nat) (symbol : String), 1 ≤ bar → bars[bar - 1]? = some symbol →
    1 ≤ beat → beat ≤ 4 → ∃ n, line.notes[4 * (bar - 1) + (beat - 1)]? = some n ∧
      n.bar = bar ∧ n.beat = beat ∧ n.duration = .finite 1 ∧ n.octaveOffset = 0 ∧
      (n.degree = (chordRoot symbol).arabic ∨ n.degree = fifthAbove (chordRoot symbol).arabic)
  traced_iff : ∀ bar beat : Nat, 1 ≤ bar → bar ≤ bars.length → 1 ≤ beat → beat ≤ 4 →
    ((∃ t ∈ line.traces, t.bar = bar ∧ t.beat = beat) ↔
      ∃ r ∈ rules, (r.role = .anchor ∨ r.role = .preference) ∧ r.EnabledFor s ∧
        r.trigger.FiresOn bars bar beat)
  trace : ∀ t ∈ line.traces, ∃ bar beat : Nat,
    1 ≤ bar ∧ bar ≤ bars.length ∧ 1 ≤ beat ∧ beat ≤ 4 ∧
      t = ⟨bar, beat, s.rulesOn rules bars bar beat .anchor ++ s.rulesOn rules bars bar beat .preference⟩
  ordered : line.traces.Pairwise fun t u => t.bar < u.bar ∨ t.bar = u.bar ∧ t.beat < u.beat

theorem Place.exists_on {bar beat : Nat} (bar_pos : 1 ≤ bar) (bar_le : bar ≤ bars.length)
    (beat_pos : 1 ≤ beat) (beat_le : beat ≤ 4) : ∃ p : Place, p.On bars ∧ p.bar = bar ∧ p.beat = beat := by
  have within : bar - 1 < bars.length := by omega
  exact ⟨⟨bar, beat, bars[bar - 1], chordBefore none bars (bar - 1)⟩,
    ⟨bar_pos, beat_pos, beat_le, List.getElem?_eq_getElem within, rfl⟩, rfl, rfl⟩

theorem exists_note {notes : List BassNote} (plays : List.Forall₂ Place.Plays (places bars) notes)
    (on : p.On bars) : ∃ n, notes[4 * (p.bar - 1) + (p.beat - 1)]? = some n ∧ p.Plays n := by
  obtain ⟨within, found⟩ := List.getElem?_eq_some_iff.mp (getElem?_places on)
  have note_within := plays.length_eq ▸ within
  have played := (List.forall₂_iff_get.mp plays).2 _ within note_within
  rw [List.get_eq_getElem, found] at played
  exact ⟨_, List.getElem?_eq_getElem note_within, played⟩

theorem mem_traces_iff {verdict : Verdict} {tones : List (Option String)} {t : Trace} (named : "" ∉ bars)
    (same : (places bars).length = tones.length) :
    t ∈ (setDown (s.groups rules) verdict bars tones).traces ↔
      ∃ p : Place, p.On bars ∧ s.rulesBehind rules bars p.bar p.beat ≠ [] ∧
        t = ⟨p.bar, p.beat, s.rulesBehind rules bars p.bar p.beat⟩ := by
  simp only [setDown, tracesOf_zipWith same, List.mem_map, List.mem_filter, mem_places_iff,
    Bool.not_eq_true', List.isEmpty_eq_false_iff, and_assoc]
  refine exists_congr fun p => and_congr_right fun on => ?_
  rw [decidingOn_groups on named, @eq_comm _ t]

/-- The tones drawn on the beats of a row of bars, set down by the rules, are a line of this shape. -/
theorem shape_setDown {verdict : Verdict} {tones : List (Option String)} (named : "" ∉ bars)
    (offered : List.Forall₂ (Offered (s.groups rules)) (places bars) tones) :
    Shape s bars rules (setDown (s.groups rules) verdict bars tones) where
  length_notes := by
    rw [← length_placesAfter 0 none bars]
    exact (forall₂_plays offered).length_eq.symm
  note := by
    intro bar beat symbol bar_pos found beat_pos beat_le
    exact exists_note (p := ⟨bar, beat, symbol, chordBefore none bars (bar - 1)⟩) (forall₂_plays offered)
      ⟨bar_pos, beat_pos, beat_le, found, rfl⟩
  traced_iff := by
    intro bar beat bar_pos bar_le beat_pos beat_le
    rw [← Selection.rulesBehind_ne_nil_iff]
    simp only [mem_traces_iff named offered.length_eq]
    constructor
    · rintro ⟨t, ⟨p, on, some_fire, rfl⟩, bar_eq, beat_eq⟩
      rw [← Int.natCast_inj.mp bar_eq, ← Int.natCast_inj.mp beat_eq]
      exact some_fire
    · intro some_fire
      obtain ⟨p, on, rfl, rfl⟩ := Place.exists_on bar_pos bar_le beat_pos beat_le
      exact ⟨_, ⟨p, on, some_fire, rfl⟩, rfl, rfl⟩
  trace := by
    intro t traced
    obtain ⟨p, on, -, rfl⟩ := (mem_traces_iff named offered.length_eq).mp traced
    have within := (List.getElem?_eq_some_iff.mp on.chord).1
    have bar_pos := on.bar_pos
    exact ⟨p.bar, p.beat, bar_pos, by omega, on.beat_pos, on.beat_le, rfl⟩
  ordered := by
    rw [setDown, tracesOf_zipWith offered.length_eq, List.pairwise_map]
    refine (pairwise_places.imp fun {p q} earlier => ?_).filter _
    dsimp only
    omega

/-- Each accepted line has this shape. -/
theorem shape_of_make {chart : Option Chart} {source after : Source} {line : BassLine}
    (made : (make s chart rules).runFrom source = (.ok line, after))
    (valid : line.verdict.isValid = true) : ∃ c, chart = some c ∧ Shape s c.bars.val rules line := by
  have accepted : (judge s chart rules).isValid = true := by
    by_contra refused
    rw [Bool.not_eq_true] at refused
    rw [make_of_invalid refused] at made
    obtain ⟨rfl, -⟩ := Draw.runFrom_pure_eq_ok.mp made
    exact Bool.false_ne_true (refused.symm.trans valid)
  obtain ⟨c, rfl, named⟩ := exists_chart_of_valid accepted
  rw [make_of_valid accepted] at made
  obtain ⟨tones, ran, rfl⟩ := Draw.runFrom_map_eq_ok.mp made
  exact ⟨c, rfl, shape_setDown named (forall₂_offered ran)⟩

/-! ### Two bars -/

def twoBars : Chart := ⟨"two-bars", [], ⟨["I", "V7"], by decide⟩, ""⟩

def player : Selection := ⟨some "blues", some 2, some "two-bars", some 4, 50, .bass⟩

/-- A rule for the tones of a bass line from a level on. -/
def toneRule (id : String) (level : Int) (role : Role) (trigger : Trigger) (action : String) : Rule :=
  ⟨id, .bass, ["blues"], level, none, role, .targetTone, trigger, action, none⟩

/-- Two anchors, a preference that is drawn twice, and an anchor of a higher level. -/
def tonesOfTwoBars : List Rule :=
  [toneRule "lean" 1 .preference .beat3 "prefer the 5th or the root",
    toneRule "land" 1 .anchor .beat1 "play root", toneRule "master" 3 .anchor .always "play fifth",
    toneRule "reach" 2 .anchor .chordChange "play fifth"]

/-- An even pick in the first bar, a pick by weight in the second one. -/
def twoPicks : Source := .scripted [.whole 0, .whole 1, .whole 1, .whole 0] []

theorem shape_twoBars :
    ∃ line after, (make player (some twoBars) tonesOfTwoBars).runFrom twoPicks = (.ok line, after) ∧
      line.verdict.isValid = true ∧ Shape player ["I", "V7"] tonesOfTwoBars line ∧
      line.notes.map (·.degree) = ["1", "1", "1", "1", "5", "2", "2", "2"] ∧
      line.traces.map (fun t => (t.bar, t.beat, t.rules.map (·.id))) =
        [(1, 1, ["land"]), (1, 3, ["lean"]), (2, 1, ["land", "reach"]), (2, 2, ["reach"]),
          (2, 3, ["reach", "lean"]), (2, 4, ["reach"])] := by
  have told : ((make player (some twoBars) tonesOfTwoBars).runFrom twoPicks).1.toOption.map
      (fun line => (line.verdict.isValid, line.notes.map (·.degree),
        line.traces.map fun t => (t.bar, t.beat, t.rules.map (·.id)))) =
      some (true, ["1", "1", "1", "1", "5", "2", "2", "2"],
        [(1, 1, ["land"]), (1, 3, ["lean"]), (2, 1, ["land", "reach"]), (2, 2, ["reach"]),
          (2, 3, ["reach", "lean"]), (2, 4, ["reach"])]) := by decide +kernel
  generalize made : (make player (some twoBars) tonesOfTwoBars).runFrom twoPicks = run at told
  obtain ⟨result, after⟩ := run
  cases result with
  | error failure => cases told
  | ok line =>
    obtain ⟨valid, degrees, traces⟩ := by
      simpa only [Except.toOption, Option.map_some, Option.some.injEq, Prod.mk.injEq] using told
    obtain ⟨c, given, shape⟩ := shape_of_make made valid
    obtain rfl := Option.some.inj given
    exact ⟨line, after, rfl, valid, shape, degrees, traces⟩

end BassLine

end Ostinato
