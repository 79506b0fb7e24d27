import Ostinato.Proofs.BindingSet.History
import Ostinato.Proofs.Timeline.Slots

/-!
# Rules that cover a bar

The search for the rule that covers a bar looks up three places: the bar, its chord, and everything. These
are the bars, chords and whole timelines whose spans contain the beats of the bar, so that the rule which is
found is the most specific one of all that cover the bar.
-/

namespace Ostinato

/-! ### Slots over a bar -/

namespace Slot

/-- Whether a slot is a bar, a chord or everything, and its span has all beats of a bar. -/
def Covers (s : Slot) (t : Timeline) (b : Bar) : Prop :=
  s.kind ∈ ["bar", "chord", "global"] ∧
    ∃ span, s.span? t usualLength = .ok (some span) ∧ b.span.beats ⊆ span.beats

variable {p : Progression} {i : Nat} {b : Bar}

theorem mem_beats {span : SlotSpan} {n : Nat} :
    n ∈ span.beats ↔ span.startBeat ≤ n ∧ (n : Int) ≤ span.endBeat := by
  rw [SlotSpan.beats, List.mem_range'_1]
  omega

/-- The beats of one bar lie in the beats of other bars only if these begin before it and end after it. -/
theorem beats_subset_iff (hb : (Timeline.ofProgression p).bars[i]? = some b) {span : SlotSpan} :
    b.span.beats ⊆ span.beats ↔ span.startBeat ≤ 4 * i + 1 ∧ (4 * i + 4 : Int) ≤ span.endBeat := by
  obtain ⟨-, start, last, -⟩ := Timeline.view_of_bar hb
  have inBar (n : Nat) : n ∈ b.span.beats ↔ 4 * i + 1 ≤ n ∧ n ≤ 4 * i + 4 := by
    simp only [mem_beats, Bar.span, start, last]
    omega
  constructor
  · intro inside
    have first := mem_beats.mp (inside ((inBar (4 * i + 1)).mpr (by omega)))
    have final := mem_beats.mp (inside ((inBar (4 * i + 4)).mpr (by omega)))
    exact ⟨first.1, by exact_mod_cast final.2⟩
  · rintro ⟨lower, upper⟩ n hn
    have bounds := (inBar n).mp hn
    exact mem_beats.mpr ⟨by omega, by omega⟩

theorem bar_covers_iff (hb : (Timeline.ofProgression p).bars[i]? = some b) (k : Nat) :
    (bar k).Covers (.ofProgression p) b ↔ k = i := by
  constructor
  · rintro ⟨-, span, hspan, inside⟩
    obtain ⟨d, hd, rfl⟩ := Option.map_eq_some_iff.mp (Except.ok.inj hspan)
    obtain ⟨-, start, last, -⟩ := Timeline.view_of_bar hd
    obtain ⟨lower, upper⟩ := (beats_subset_iff hb).mp inside
    simp only [start, last] at lower upper
    omega
  · rintro rfl
    refine ⟨by simp [kind], b.span, ?_, List.Subset.refl _⟩
    rw [span?, hb]
    rfl

theorem chord_covers_iff (hb : (Timeline.ofProgression p).bars[i]? = some b) (j : Nat) :
    (chord j).Covers (.ofProgression p) b ↔ j = b.chordIndex := by
  obtain ⟨-, -, -, held, c, hc, -⟩ := Timeline.view_of_bar hb
  have inside (j : Nat) : 4 * barsBefore p.chords j + 1 ≤ 4 * i + 1 ∧
      (4 * i + 4 : Int) ≤ (4 * barsBefore p.chords (j + 1) : Nat) ↔ b.chordIndex = j := by
    rw [held j]
    omega
  constructor
  · rintro ⟨-, span, hspan, within⟩
    obtain ⟨d, hd, rfl⟩ := Option.map_eq_some_iff.mp (Except.ok.inj hspan)
    rw [beats_subset_iff hb, Timeline.startBeat_of_boundary hd, Timeline.endBeat_of_boundary hd] at within
    exact ((inside j).mp within).symm
  · rintro rfl
    have onChord : (chord b.chordIndex).span? (.ofProgression p) usualLength =
        .ok (some ⟨3, c.startBeat, c.endBeat, b.chordIndex, b.chordIndex + 1⟩) := by
      rw [span?, hc]
      rfl
    refine ⟨by simp [kind], _, onChord, (beats_subset_iff hb).mpr ?_⟩
    rw [Timeline.startBeat_of_boundary hc, Timeline.endBeat_of_boundary hc]
    exact (inside b.chordIndex).mpr rfl

theorem global_covers (hb : (Timeline.ofProgression p).bars[i]? = some b) :
    global.Covers (.ofProgression p) b := by
  have within : i < p.totalBars := Timeline.lt_totalBars_iff.mpr ⟨b, hb⟩
  refine ⟨by simp [kind], _, rfl, (beats_subset_iff hb).mpr ⟨by simp, ?_⟩⟩
  simp only [Timeline.totalBeats_ofProgression, beatsPerBar]
  omega

/-- The slots that are looked up for a bar, from the most specific one on. -/
def overBar (i : Nat) (b : Bar) : List Slot := [bar i, chord b.chordIndex, global]

theorem covers_iff_mem_overBar (hb : (Timeline.ofProgression p).bars[i]? = some b) (s : Slot) :
    s.Covers (.ofProgression p) b ↔ s ∈ overBar i b := by
  cases s with
  | global => simp [overBar, global_covers hb]
  | bar k => simp [overBar, bar_covers_iff hb]
  | chord j => simp [overBar, chord_covers_iff hb]
  | transition j k => simp [overBar, Covers, kind]
  | lastChord => simp [overBar, Covers, kind]

theorem pairwise_overBar (i : Nat) (b : Bar) :
    (overBar i b).Pairwise fun s s' => s'.specificity < s.specificity := by
  simp [overBar, specificity]

end Slot

/-! ### Rules by place -/

namespace BindingSet

variable {s : BindingSet} {partId : Option String}

theorem find?_eq_some_iff (distinct : (s.toList.map AppliedRule.key).Nodup) {slot : Slot}
    {owner : Option String} {a : AppliedRule} :
    s.find? slot owner = some a ↔ a ∈ s.toList ∧ a.slot = slot ∧ a.partId = owner := by
  have there {c : AppliedRule} (found : s.find? slot owner = some c) : c ∈ s.toList ∧ c.key = (slot, owner) := by
    rw [find?] at found
    exact ⟨List.mem_of_find?_eq_some found, by simpa using List.find?_some found⟩
  constructor
  · intro found
    obtain ⟨ha, key⟩ := there found
    exact ⟨ha, Prod.mk.inj key⟩
  · rintro ⟨ha, rfl, rfl⟩
    cases found : s.find? a.slot a.partId with
    | none => exact absurd (beq_self_eq_true a.key) (List.find?_eq_none.mp found a ha)
    | some c =>
      obtain ⟨hc, same⟩ := there found
      rw [List.inj_on_of_nodup_map distinct hc ha same]

theorem mem_forPart {a : AppliedRule} :
    a ∈ s.forPart partId ↔ a ∈ s.toList ∧ (a.partId = none ∨ a.partId = partId) := by
  rw [forPart, List.mem_filter, Bool.or_eq_true, beq_iff_eq, beq_iff_eq]
  rfl

theorem findFor?_eq_none_iff (distinct : (s.toList.map AppliedRule.key).Nodup) {slot : Slot} :
    s.findFor? partId slot = none ↔ ∀ a ∈ s.forPart partId, a.slot ≠ slot := by
  have vacant (owner : Option String) : s.find? slot owner = none ↔
      ∀ a ∈ s.toList, a.slot = slot → a.partId ≠ owner := by
    simp only [Option.eq_none_iff_forall_ne_some, ne_eq, find?_eq_some_iff distinct, not_and]
  rw [findFor?, Option.or_eq_none_iff, vacant, vacant]
  constructor
  · rintro ⟨own, shared⟩ a ha place
    obtain ⟨bound, owner⟩ := mem_forPart.mp ha
    exact owner.elim (shared a bound place) (own a bound place)
  · intro free
    exact ⟨fun a ha place owner => free a (mem_forPart.mpr ⟨ha, .inr owner⟩) place,
      fun a ha place owner => free a (mem_forPart.mpr ⟨ha, .inl owner⟩) place⟩

/-- The rule that is found at a slot is bound there; it is the rule of the part if the part has one. -/
theorem place_of_findFor? (distinct : (s.toList.map AppliedRule.key).Nodup) {slot : Slot}
    {a : AppliedRule} (h : s.findFor? partId slot = some a) : a ∈ s.forPart partId ∧ a.slot = slot ∧
      ∀ c ∈ s.forPart partId, c.slot = slot → c.partId = partId → c = a := by
  have only {c : AppliedRule} (hc : c ∈ s.forPart partId) (place : c.slot = slot) (owner : c.partId = partId) :
      s.find? slot partId = some c :=
    (find?_eq_some_iff distinct).mpr ⟨(mem_forPart.mp hc).1, place, owner⟩
  rw [findFor?, Option.or_eq_some_iff] at h
  rcases h with own | ⟨vacant, shared⟩
  · obtain ⟨bound, place, owner⟩ := (find?_eq_some_iff distinct).mp own
    refine ⟨mem_forPart.mpr ⟨bound, .inr owner⟩, place, fun c hc hplace howner => ?_⟩
    rw [only hc hplace howner] at own
    exact Option.some.inj own
  · obtain ⟨bound, place, owner⟩ := (find?_eq_some_iff distinct).mp shared
    refine ⟨mem_forPart.mpr ⟨bound, .inl owner⟩, place, fun c hc hplace howner => ?_⟩
    rw [only hc hplace howner] at vacant
    cases vacant

/-! ### The most specific rule -/

/-- A rule of a class that no rule of the class is more specific than; if a part owns a rule of the class
that is as specific, it is this one. -/
structure MostSpecific (partId : Option String) (rules : AppliedRule → Prop) (a : AppliedRule) : Prop where
  mem : rules a
  most : ∀ c, rules c → c.slot.specificity ≤ a.slot.specificity
  own : ∀ c, rules c → c.slot.specificity = a.slot.specificity → c.partId = partId → c = a

/-- The rules for a part whose slots cover a bar. -/
def Covering (s : BindingSet) (t : Timeline) (b : Bar) (partId : Option String) (a : AppliedRule) : Prop :=
  a ∈ s.forPart partId ∧ a.slot.Covers t b

theorem findSome?_findFor?_eq_none_iff (distinct : (s.toList.map AppliedRule.key).Nodup) {slots : List Slot} :
    slots.findSome? (s.findFor? partId) = none ↔ ∀ a ∈ s.forPart partId, a.slot ∉ slots := by
  simp only [List.findSome?_eq_none_iff, findFor?_eq_none_iff distinct]
  exact ⟨fun free a ha listed => free a.slot listed a ha rfl,
    fun free slot listed a ha place => free a ha (place ▸ listed)⟩

/-- Where slots are looked up from the most specific one on, the rule that is found is the most specific
one. -/
theorem mostSpecific_of_findSome? (distinct : (s.toList.map AppliedRule.key).Nodup) {slots : List Slot}
    (descending : slots.Pairwise fun s s' => s'.specificity < s.specificity) {a : AppliedRule}
    (h : slots.findSome? (s.findFor? partId) = some a) :
    MostSpecific partId (fun c => c ∈ s.forPart partId ∧ c.slot ∈ slots) a := by
  obtain ⟨before, slot, after, rfl, found, passed⟩ := List.findSome?_eq_some_iff.mp h
  obtain ⟨ha, rfl, own⟩ := place_of_findFor? distinct found
  -- what is looked up before the slot has no rule, and what comes after it is less specific
  have later {c : AppliedRule} (hc : c ∈ s.forPart partId) (listed : c.slot ∈ before ++ a.slot :: after) :
      c.slot = a.slot ∨ c.slot.specificity < a.slot.specificity := by
    rcases List.mem_append.mp listed with first | rest
    · exact absurd rfl ((findFor?_eq_none_iff distinct).mp (passed _ first) c hc)
    · rcases List.mem_cons.mp rest with same | less
      · exact .inl same
      · have tail := (List.pairwise_append.mp descending).2.1
        exact .inr ((List.pairwise_cons.mp tail).1 c.slot less)
  refine ⟨⟨ha, by simp⟩, ?_, ?_⟩
  · rintro c ⟨hc, listed⟩
    rcases later hc listed with same | less
    · rw [same]
    · exact less.le
  · rintro c ⟨hc, listed⟩ level owner
    rcases later hc listed with same | less
    · exact own c hc same owner
    · exact absurd level less.ne

/-- Whatever was bound and taken back before, the search for a bar of a timeline finds a rule if any rule for
the part covers the bar, and then the most specific of these rules: the one that the part owns before the
one for every part. Outside of the timeline it finds none. -/
theorem covered_by_most_specific (rules : List AppliedRule) (changes : List BindingChange) (p : Progression)
    (bar : Int) (partId : Option String) :
    let s := (ofList rules).run changes
    let t := Timeline.ofProgression p
    (bar < 0 ∨ (t.bars.length : Int) ≤ bar → s.covering? t bar partId = none) ∧
    ∀ b, itemAt? t.bars bar = some b →
      (s.covering? t bar partId = none ↔ ∀ a, ¬s.Covering t b partId a) ∧
      ∀ a, s.covering? t bar partId = some a → MostSpecific partId (s.Covering t b partId) a := by
  intro s t
  have distinct : (s.toList.map AppliedRule.key).Nodup := by
    rw [show s = empty.run (rules.map .bind ++ changes) from run_ofList rules changes]
    exact nodup_run _
  constructor
  · intro outside
    have missed : itemAt? t.bars bar = none := by
      rw [itemAt?]
      split_ifs with lower
      · exact List.getElem?_eq_none (by omega)
      · rfl
    rw [covering?, missed]
  · intro b hb
    have inside : t.bars[bar.toNat]? = some b := by
      rw [itemAt?] at hb
      split_ifs at hb
      exact hb
    have looked : s.covering? t bar partId = (Slot.overBar bar.toNat b).findSome? (s.findFor? partId) := by
      rw [covering?, hb]
      rfl
    have class_eq : s.Covering t b partId =
        fun a => a ∈ s.forPart partId ∧ a.slot ∈ Slot.overBar bar.toNat b := by
      funext a
      rw [Covering, Slot.covers_iff_mem_overBar inside]
    rw [looked, class_eq]
    constructor
    · rw [findSome?_findFor?_eq_none_iff distinct]
      exact ⟨fun free a covers => free a covers.1 covers.2, fun free a ha listed => free a ⟨ha, listed⟩⟩
    · exact fun a found => mostSpecific_of_findSome? distinct (Slot.pairwise_overBar _ b) found

def heldFourth : Progression :=
  ⟨"held-fourth", "C", [⟨"I", none, Count.one⟩, Chord.holdLonger ⟨"IV", none, Count.one⟩], [], ""⟩

def everyPart : AppliedRule := ⟨"hold", .chord 1, none, none, none⟩

def bassOnly : AppliedRule := ⟨"pulse", .chord 1, some "bass", none, none⟩

def lastBar : AppliedRule := ⟨"turn", .bar 2, none, none, none⟩

def throughout : AppliedRule := ⟨"drone", .global, some "bass", none, none⟩

/-- The rule of the last bar was taken back, so that the two rules of its chord are the most specific ones
there, and one of them belongs to the bass. -/
theorem bass_owns_held_fourth :
    let s := (ofList [lastBar, bassOnly, throughout]).run [.bind everyPart, .unbind (.bar 2) none]
    let t := Timeline.ofProgression heldFourth
    let b : Bar := ⟨2, 1, "IV", 9, 4⟩
    itemAt? t.bars 2 = some b ∧ s.covering? t 2 (some "bass") = some bassOnly ∧
      s.Covering t b (some "bass") everyPart ∧
      MostSpecific (some "bass") (s.Covering t b (some "bass")) bassOnly := by
  intro s t b
  have onBar : itemAt? t.bars 2 = some b := by decide +kernel
  have found : s.covering? t 2 (some "bass") = some bassOnly := by decide +kernel
  have most := ((covered_by_most_specific [lastBar, bassOnly, throughout]
    [.bind everyPart, .unbind (.bar 2) none] heldFourth 2 (some "bass")).2 b onBar).2 bassOnly found
  refine ⟨onBar, found, ⟨by decide +kernel, ?_⟩, most⟩
  exact (Slot.chord_covers_iff (i := 2) onBar 1).mpr rfl

end BindingSet

end Ostinato
