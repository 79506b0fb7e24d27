import Ostinato.Proofs.Arrangement.BindingOrder
import Ostinato.Proofs.Arrangement.Undisputed
import Ostinato.Proofs.Timeline.Spans

/-!
# Slots with the same notes

A rule on the global slot plays what it plays when it is bound to every bar, and on the last chord what
it plays when it is bound to that chord by its number. The performances are the same but for the rank of
the slot, which decides nothing where a rule has no rival.
-/

namespace Ostinato

open Success

variable {c : Catalog} {p : Progression} {t : Timeline} {part : Part} {a : AppliedRule}
variable {rule : RichRule} {figure : Figure} {length : Amount}

/-- The rule, bound to another slot. -/
def AppliedRule.on (a : AppliedRule) (s : Slot) : AppliedRule := { a with slot := s }

/-! ### Performances of a rule on different slots -/

/-- What a performance plays hangs on the rule and not on the slot that it is bound to. -/
theorem Performance.notes_on (s s' : Slot) (span span' : SlotSpan) (context : PitchContext)
    (startBeat fallback : Nat) :
    Performance.notes t part ⟨⟨a.on s, rule, figure, span⟩, context, startBeat, fallback⟩ =
      Performance.notes t part ⟨⟨a.on s', rule, figure, span'⟩, context, startBeat, fallback⟩ := rfl

theorem Engagement.performances_of_global {e : Engagement} (h : e.applied.slot = .global) :
    e.performances t = t.bars.map fun b =>
      ⟨e, ⟨t, b.chordIndex, t.nextChordIndex b.chordIndex⟩, b.startBeat, b.chordIndex⟩ := if_pos h

theorem Engagement.make_of_span (hrule : c.richRule? a.ruleId = some rule)
    (hfigure : figureOf? c rule = some (figure, length)) {s : Slot} {span : SlotSpan}
    (hspan : s.span? t length = .ok (some span)) :
    Engagement.make c t (a.on s) = .ok (.ok ⟨a.on s, rule, figure, span⟩) :=
  make_eq_engagement.mpr ⟨rfl, hrule, length, hfigure, hspan⟩

theorem Engagement.make_of_unplayable
    (h : ∀ r, c.richRule? a.ruleId = some r → figureOf? c r = none) (s : Slot) :
    ∃ o, Engagement.make c t (a.on s) = .ok (.error o) := by
  have same : (a.on s).ruleId = a.ruleId := rfl
  cases hr : c.richRule? a.ruleId with
  | none => exact ⟨.unknownRule a.ruleId, by simp [make, same, hr]⟩
  | some r => exact ⟨.unknownRiff r.id r.riffId, by simp [make, same, hr, h r hr]⟩

theorem Roster.make_of_silent {rules : List AppliedRule}
    (h : ∀ b ∈ rules, b.appliesTo part.id = true → ∃ o, Engagement.make c t b = .ok (.error o)) :
    ∃ omissions, Roster.make c t part.id rules = .ok ⟨[], omissions⟩ := by
  have silent : ∀ b ∈ rules.filter (·.appliesTo part.id), ∃ o, Engagement.make c t b = .ok (.error o) :=
    fun b hb => h b (List.mem_filter.mp hb).1 (List.mem_filter.mp hb).2
  obtain ⟨outcomes, houtcomes, none_engaged⟩ : ∃ outcomes,
      (rules.filter (·.appliesTo part.id)).mapM (Engagement.make c t) = .ok outcomes ∧
        Roster.engaged outcomes = [] := by
    generalize rules.filter (·.appliesTo part.id) = l at silent
    induction l with
    | nil => exact ⟨[], rfl, rfl⟩
    | cons b l ih =>
      obtain ⟨⟨o, ho⟩, hl⟩ := List.forall_mem_cons.mp silent
      obtain ⟨outcomes, houtcomes, none_engaged⟩ := ih hl
      refine ⟨.error o :: outcomes, ?_, none_engaged⟩
      rw [List.mapM_cons, ho, houtcomes]
      rfl
  refine ⟨Roster.omitted outcomes, Roster.make_eq_ok.mpr ⟨outcomes, houtcomes, ?_⟩⟩
  rw [none_engaged, List.mergeSort_nil]

theorem Voice.map_fst_make_of_silent {rules : List AppliedRule}
    (h : ∀ b ∈ rules, b.appliesTo part.id = true → ∃ o, Engagement.make c t b = .ok (.error o)) :
    (Voice.make c t rules part).map Prod.fst = .ok ⟨part, []⟩ := by
  obtain ⟨omissions, hr⟩ := Roster.make_of_silent h
  rw [Voice.map_fst_make (k := 0) hr fun e he => absurd he List.not_mem_nil]
  simp [pure, Except.pure, Except.map]

/-- Of two ways to bind a rule only those matter in which it is played at all. -/
theorem Voice.map_fst_make_eq {rules rules' : List AppliedRule}
    (hrules : ∀ b ∈ rules, ∃ s, b = a.on s) (hrules' : ∀ b ∈ rules', ∃ s, b = a.on s)
    (played : a.appliesTo part.id = true → ∀ rule figure length, c.richRule? a.ruleId = some rule →
      Engagement.figureOf? c rule = some (figure, length) →
      (Voice.make c t rules part).map Prod.fst = (Voice.make c t rules' part).map Prod.fst) :
    (Voice.make c t rules part).map Prod.fst = (Voice.make c t rules' part).map Prod.fst := by
  by_cases playable : a.appliesTo part.id = true ∧ ∃ rule figure length,
      c.richRule? a.ruleId = some rule ∧ Engagement.figureOf? c rule = some (figure, length)
  · obtain ⟨applies, rule, figure, length, hrule, hfigure⟩ := playable
    exact played applies rule figure length hrule hfigure
  · have silent {l : List AppliedRule} (hl : ∀ b ∈ l, ∃ s, b = a.on s) :
        ∀ b ∈ l, b.appliesTo part.id = true → ∃ o, Engagement.make c t b = .ok (.error o) := by
      intro b hb applies
      obtain ⟨s, rfl⟩ := hl b hb
      refine Engagement.make_of_unplayable (fun r hr => ?_) s
      cases hfigure : Engagement.figureOf? c r with
      | none => rfl
      | some f => exact absurd ⟨applies, r, f.1, f.2, hr, hfigure⟩ playable
    rw [map_fst_make_of_silent (silent hrules), map_fst_make_of_silent (silent hrules')]

/-! ### The global slot and the bars -/

/-- The engagement of a rule that is bound to a bar. -/
def Engagement.onBar (a : AppliedRule) (rule : RichRule) (figure : Figure) (b : Bar) : Engagement :=
  ⟨a.on (.bar b.index), rule, figure, ⟨4, b.startBeat, b.endBeat, b.chordIndex, b.chordIndex + 1⟩⟩

theorem Engagement.performances_onBar (a : AppliedRule) (rule : RichRule) (figure : Figure) (b : Bar) :
    (Engagement.onBar a rule figure b).performances t =
      [⟨.onBar a rule figure b, ⟨t, b.chordIndex, t.nextChordIndex b.chordIndex⟩, b.startBeat,
        b.chordIndex⟩] := by
  rw [Timeline.nextChordIndex_natCast]
  rfl

theorem Roster.make_onBars (hrule : c.richRule? a.ruleId = some rule)
    (hfigure : Engagement.figureOf? c rule = some (figure, length)) (applies : a.appliesTo part.id = true)
    {bars : List AppliedRule}
    (perm : bars.Perm ((Timeline.ofProgression p).bars.map fun b => a.on (.bar b.index))) :
    ∃ omissions, Roster.make c (.ofProgression p) part.id bars =
      .ok ⟨(Timeline.ofProgression p).bars.map (Engagement.onBar a rule figure), omissions⟩ := by
  set t := Timeline.ofProgression p
  have all : bars.filter (·.appliesTo part.id) = bars := by
    refine List.filter_eq_self.mpr fun b hb => ?_
    obtain ⟨d, -, rfl⟩ := List.mem_map.mp (perm.mem_iff.mp hb)
    exact applies
  have made : (t.bars.map fun b => a.on (.bar b.index)).mapM (Engagement.make c t) =
      .ok (t.bars.map fun b => .ok (.onBar a rule figure b)) := by
    rw [List.mapM_map]
    exact mapM_of_forall fun b hb => Engagement.make_of_span hrule hfigure (Timeline.span?_bar hb length)
  obtain ⟨outcomes, houtcomes, same⟩ := mapM_perm perm.symm made
  have engaged : (Roster.engaged outcomes).Perm (t.bars.map (Engagement.onBar a rule figure)) := by
    refine (Roster.engaged_perm same).trans (List.Perm.of_eq ?_)
    rw [Roster.engaged_eq_filterMap, List.filterMap_map, ← List.filterMap_eq_map]
    rfl
  -- no two bars start on one beat, so the order in which they are bound is lost when they are sorted
  have apart : (t.bars.map (Engagement.onBar a rule figure)).Pairwise fun e f => ¬ e.Tied f := by
    rw [List.pairwise_map]
    refine (Timeline.pairwise_startBeat p).imp fun {b d} earlier tied => ?_
    exact earlier.ne tied.2
  have inOrder : (t.bars.map (Engagement.onBar a rule figure)).Pairwise fun e f =>
      e.notAfter f = true := by
    rw [List.pairwise_map]
    refine (Timeline.pairwise_startBeat p).imp fun {b d} earlier => ?_
    exact Engagement.notAfter_iff.mpr (.inr ⟨rfl, earlier.le⟩)
  refine ⟨Roster.omitted outcomes, Roster.make_eq_ok.mpr ⟨outcomes, by rwa [all], ?_⟩⟩
  rw [← mergeSort_engagements_of_untied engaged.symm apart, List.mergeSort_of_pairwise inOrder]

theorem Voice.map_fst_make_onBars {bars : List AppliedRule}
    (perm : bars.Perm ((Timeline.ofProgression p).bars.map fun b => a.on (.bar b.index))) :
    (Voice.make c (.ofProgression p) [a.on .global] part).map Prod.fst =
      (Voice.make c (.ofProgression p) bars part).map Prod.fst := by
  set t := Timeline.ofProgression p
  refine map_fst_make_eq (a := a) (fun b hb => ⟨.global, List.mem_singleton.mp hb⟩) (fun b hb => ?_)
    fun applies rule figure length hrule hfigure => ?_
  · obtain ⟨d, -, rfl⟩ := List.mem_map.mp (perm.mem_iff.mp hb)
    exact ⟨.bar d.index, rfl⟩
  · have whole : Engagement.make c t (a.on .global) =
        .ok (.ok ⟨a.on .global, rule, figure, ⟨0, 1, t.totalBeats, 0, 1⟩⟩) :=
      Engagement.make_of_span hrule hfigure rfl
    obtain ⟨omissions, hbars⟩ := Roster.make_onBars hrule hfigure applies perm
    have same_rank : ∀ e ∈ t.bars.map (Engagement.onBar a rule figure), e.span.specificity = 4 := by
      intro e he
      obtain ⟨b, -, rfl⟩ := List.mem_map.mp he
      rfl
    rw [map_fst_make_single (b := a.on .global) applies whole, map_fst_make hbars same_rank, List.flatMap_map]
    simp only [Engagement.performances_onBar]
    rw [← List.map_eq_flatMap, List.mapM_map, Engagement.performances_of_global rfl, List.mapM_map]
    refine congrArg (Except.map _) (mapM_congr fun b _ => ?_)
    exact Performance.notes_on .global (.bar b.index) ..

/-! ### The last chord -/

theorem Voice.map_fst_make_onLastChord {n : Nat} (hn : p.chords.length = n + 1) :
    (Voice.make c (.ofProgression p) [a.on .lastChord] part).map Prod.fst =
      (Voice.make c (.ofProgression p) [a.on (.chord n)] part).map Prod.fst := by
  refine map_fst_make_eq (a := a) (fun b hb => ⟨.lastChord, List.mem_singleton.mp hb⟩)
    (fun b hb => ⟨.chord n, List.mem_singleton.mp hb⟩) fun applies rule figure length hrule hfigure => ?_
  obtain ⟨b, -, onLast, onChord⟩ := Timeline.span?_lastChord hn length
  have made_last := Engagement.make_of_span (a := a) hrule hfigure onLast
  have made_chord := Engagement.make_of_span (a := a) hrule hfigure onChord
  have beyond : ¬ n + 1 < (Timeline.ofProgression p).boundaries.length := by
    rw [Timeline.length_boundaries]
    omega
  rw [map_fst_make_single (b := a.on .lastChord) applies made_last,
    map_fst_make_single (b := a.on (.chord n)) applies made_chord]
  simp only [Engagement.performances, AppliedRule.on, reduceCtorEq, if_false, if_neg beyond, ite_self]
  rfl

/-! ### Equal slots -/

/-- A rule on the global slot gives every part the notes that it gives when it is bound to each bar, in
any order, and on the last chord those that it gives when it is bound to that chord by its number. Where
one of the two has no result, neither has the other. -/
theorem Arrangement.equal_slots (p : Progression) (parts : List Part) (a : AppliedRule) (c : Catalog) :
    (∀ bars : List AppliedRule, bars.Perm ((List.range p.totalBars).map fun i => a.on (.bar i)) →
      (make p parts [a.on .global] c).map (·.voices) = (make p parts bars c).map (·.voices)) ∧
    ∀ n, p.chords.length = n + 1 →
      (make p parts [a.on .lastChord] c).map (·.voices) =
        (make p parts [a.on (.chord n)] c).map (·.voices) := by
  have single (b : AppliedRule) : (BindingSet.ofList [b]).toList = [b] := rfl
  constructor
  · intro bars perm
    have distinct : (bars.map AppliedRule.key).Nodup := by
      refine (perm.map AppliedRule.key).nodup_iff.mpr ?_
      rw [List.map_map]
      refine List.nodup_range.map fun i j hij => ?_
      exact Slot.bar.inj (congrArg Prod.fst hij)
    rw [← Timeline.map_index_bars p, List.map_map] at perm
    rw [map_voices_make, map_voices_make, single, BindingSet.toList_ofList_of_nodup distinct]
    exact mapM_congr fun part _ => Voice.map_fst_make_onBars perm
  · intro n hn
    rw [map_voices_make, map_voices_make, single, single]
    exact mapM_congr fun part _ => Voice.map_fst_make_onLastChord hn

/-! ### A held root -/

theorem four_aboveInt_zero : (Binary64.finite 4).aboveInt 0 = true := by decide

def hold : Riff :=
  ⟨"hold", ⟨.finite 4, four_aboveInt_zero⟩, [⟨RiffBeat.first, Duration.beat, currentRoot, none⟩], ""⟩

def holdRule : RichRule := ⟨"hold", "", "", some "hold", .normal, [], none, [], [], none, []⟩

def holdCatalog : Catalog := { Catalog.empty with richRules := [holdRule], riffs := [hold] }

def holdEverywhere : AppliedRule := ⟨"hold", .global, none, some "low", none⟩

def heldRoot (degree : String) (beat : ℚ) : NoteEvent := { lowRoot beat with degree := degree }

theorem voices_hold {s : Slot} {span : SlotSpan} (notes : List (List NoteEvent))
    (hspan : s.span? (.ofProgression threeBars) (.real (.finite 4)) = .ok (some span))
    (hnotes : ((⟨holdEverywhere.on s, holdRule, .riff hold, span⟩ : Engagement).performances
      (.ofProgression threeBars)).mapM (Performance.notes (.ofProgression threeBars) bassPart) = .ok notes)
    (sorted : notes.flatten.Pairwise fun m n => m.notAfter n = true) :
    (Arrangement.make threeBars [bassPart] [holdEverywhere.on s] holdCatalog).map (·.voices) =
      .ok [⟨bassPart, notes.flatten⟩] := by
  have made : Engagement.make holdCatalog (.ofProgression threeBars) (holdEverywhere.on s) = _ :=
    Engagement.make_of_span (a := holdEverywhere) rfl rfl hspan
  rw [Arrangement.map_voices_make]
  refine mapM_eq_ok.mpr (.cons ?_ .nil)
  refine (Voice.map_fst_make_single (b := holdEverywhere.on s) rfl made).trans ?_
  rw [hnotes, Except.map, List.mergeSort_of_pairwise sorted]

theorem Arrangement.hold_on_equal_slots :
    ([2, 0, 1].map fun i => holdEverywhere.on (.bar i)).Perm
      ((List.range threeBars.totalBars).map fun i => holdEverywhere.on (.bar i)) ∧
    (make threeBars [bassPart] ([2, 0, 1].map fun i => holdEverywhere.on (.bar i)) holdCatalog).map
      (·.voices) = .ok [⟨bassPart, [heldRoot "I" 1, heldRoot "IV" 5, heldRoot "V" 9]⟩] ∧
    threeBars.chords.length = 2 + 1 ∧
    (make threeBars [bassPart] [holdEverywhere.on (.chord 2)] holdCatalog).map (·.voices) =
      .ok [⟨bassPart, [heldRoot "V" 9]⟩] := by
  obtain ⟨everywhere, last⟩ := equal_slots threeBars [bassPart] holdEverywhere holdCatalog
  have perm : ([2, 0, 1].map fun i => holdEverywhere.on (.bar i)).Perm
      ((List.range threeBars.totalBars).map fun i => holdEverywhere.on (.bar i)) :=
    List.Perm.map _ (by decide)
  refine ⟨perm, ?_, rfl, ?_⟩
  · rw [← everywhere _ perm]
    exact voices_hold [[heldRoot "I" 1], [heldRoot "IV" 5], [heldRoot "V" 9]] rfl
      (ok_of_toOption (by decide +kernel)) (by decide +kernel)
  · rw [← last 2 rfl]
    exact voices_hold [[heldRoot "V" 9]] rfl (ok_of_toOption (by decide +kernel))
      (by decide +kernel)

end Ostinato
