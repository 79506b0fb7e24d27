import Ostinato.Proofs.Arrangement.Voice

/-!
# Arbitration

Which events a part plays: those of the most specific rules on each beat, and all of them.
-/

namespace Ostinato

open Success

/-! ### Two rules on one bar -/

def threeBars : Progression :=
  ⟨"three-bars", "C", ["I", "IV", "V"].map fun degree => ⟨degree, none, Count.one⟩, [], ""⟩

def currentRoot : PitchRef := ⟨.currentChord, 0, none⟩

/-- A note on the first beat, and one on the second half of the last beat of the next bar. -/
def leap : Riff :=
  ⟨"leap", ⟨.finite 9, by decide⟩,
    [⟨RiffBeat.first, Duration.beat, currentRoot, none⟩,
      ⟨⟨.finite (17 / 2), by decide +kernel⟩, Duration.beat, currentRoot, none⟩], ""⟩

def leapRule : RichRule := ⟨"leap", "", "", some "leap", .normal, [], none, [], [], none, []⟩

def leapCatalog : Catalog := { Catalog.empty with richRules := [leapRule], riffs := [leap] }

def bassPart : Part := ⟨"bass", "Bass", false, none⟩

def lowLeap : AppliedRule := ⟨"leap", .bar 0, none, some "low", none⟩

def highLeap : AppliedRule := ⟨"leap", .chord 0, none, some "high", none⟩

def lowRoot (beat : ℚ) : NoteEvent := ⟨.finite beat, .finite 1, "I", 2, "bass", "Bass"⟩

/-- Both rules want the same beats, and the one that is bound to the bar has them. -/
def leapArrangement : Arrangement :=
  ⟨.ofProgression threeBars, [⟨bassPart, [lowRoot 1, lowRoot (17 / 2)]⟩], []⟩

def lowEngagement : Engagement := ⟨lowLeap, leapRule, .riff leap, ⟨4, 1, 4, 0, 1⟩⟩

def highEngagement : Engagement := ⟨highLeap, leapRule, .riff leap, ⟨3, 1, 4, 0, 1⟩⟩

theorem roster_leap : Roster.make leapCatalog (.ofProgression threeBars) bassPart.id [lowLeap, highLeap] =
    .ok ⟨[lowEngagement, highEngagement], []⟩ := by
  refine Roster.make_eq_ok.mpr ⟨[.ok lowEngagement, .ok highEngagement], rfl, ?_⟩
  rw [Roster.engaged, Roster.engaged, Roster.engaged, List.mergeSort_of_pairwise (by decide)]
  rfl

theorem voice_leap : Voice.make leapCatalog (.ofProgression threeBars) [lowLeap, highLeap] bassPart =
    .ok (⟨bassPart, [lowRoot 1, lowRoot (17 / 2)]⟩, []) := by
  have score : ([lowEngagement, highEngagement].flatMap
      (·.performances (.ofProgression threeBars))).foldlM
        (Score.perform (.ofProgression threeBars) bassPart) .empty =
      .ok ⟨[(.finite (17 / 2), 4), (.finite 1, 4)], [lowRoot 1, lowRoot (17 / 2)]⟩ :=
    ok_of_toOption (by decide +kernel)
  have sorted : [lowRoot 1, lowRoot (17 / 2)].mergeSort NoteEvent.notAfter =
      [lowRoot 1, lowRoot (17 / 2)] := List.mergeSort_of_pairwise (by decide +kernel)
  simp only [Voice.make, bind_eq_ok, pure_eq_ok, Failure.ofNumber_eq_ok]
  exact ⟨_, roster_leap, _, score, congrArg (fun notes => ((⟨bassPart, notes⟩ : Voice), _)) sorted⟩

theorem make_leap :
    Arrangement.make threeBars [bassPart] [lowLeap, highLeap] leapCatalog = .ok leapArrangement :=
  Arrangement.make_eq_ok.mpr ⟨_, mapM_eq_ok.mpr (.cons voice_leap .nil), rfl⟩

/-! ### Exact arbitration -/

variable {c : Catalog} {rules : List AppliedRule} {p : Progression} {parts : List Part} {a : Arrangement}

/-- Whatever rules are bound, the notes of a part are exactly those of the candidates that no other
candidate on their beat is more specific than, each once, in the order of their beats; notes on one beat
are in the order of specificity, then of the start of the slot, then of binding. -/
theorem Arrangement.voices_arbitrated (h : Arrangement.make p parts rules c = .ok a) :
    a.timeline = .ofProgression p ∧
    a.voices.map (·.part) = parts.filter (fun part => !part.muted) ∧
    ∀ v ∈ a.voices, ∃ outcomes order candidates notes,
      ((BindingSet.ofList rules).toList.filter (·.appliesTo v.part.id)).mapM
        (Engagement.make c a.timeline) = .ok outcomes ∧
      StablySorted Engagement.notAfter (Roster.engaged outcomes) order ∧
      Candidate.ofEngagements a.timeline order = .ok candidates ∧
      (candidates.filter fun d => ∀ e ∈ candidates, e.beat = d.beat → e.specificity ≤ d.specificity).mapM
        (Candidate.note a.timeline v.part) = .ok notes ∧
      StablySorted NoteEvent.notAfter notes v.notes ∧
      v.notes.Pairwise fun m n => m.startBeat.le n.startBeat = true := by
  refine ⟨timeline_eq h, parts_eq h, fun v hv => ?_⟩
  obtain ⟨outcomes, cs, notes, houtcomes, hcs, hnotes, eq⟩ := voice_of_mem h hv
  have sorted := NoteEvent.stablySorted_mergeSort notes
  have placed {n : NoteEvent} (hn : n ∈ notes.mergeSort NoteEvent.notAfter) : IsStartBeat n.startBeat :=
    isStartBeat_of_winningNotes hcs hnotes (sorted.perm.mem_iff.mp hn)
  rw [eq]
  refine ⟨outcomes, _, cs, notes, houtcomes, stablySorted_engagements _, hcs, hnotes, sorted, ?_⟩
  exact sorted.inOrder.imp_of_mem fun hm hn hmn =>
    Binary64.le_of_notAfter (placed hm).ne_nan (placed hn).ne_nan hmn

theorem Arrangement.leap_arbitrated :
    make threeBars [bassPart] [lowLeap, highLeap] leapCatalog = .ok leapArrangement ∧
    leapArrangement.voices.map (·.part) = [bassPart] ∧
    ∃ outcomes order candidates notes,
      [lowLeap, highLeap].mapM (Engagement.make leapCatalog leapArrangement.timeline) = .ok outcomes ∧
      StablySorted Engagement.notAfter (Roster.engaged outcomes) order ∧
      Candidate.ofEngagements leapArrangement.timeline order = .ok candidates ∧
      (candidates.filter fun d => ∀ e ∈ candidates, e.beat = d.beat → e.specificity ≤ d.specificity).mapM
        (Candidate.note leapArrangement.timeline bassPart) = .ok notes ∧
      StablySorted NoteEvent.notAfter notes [lowRoot 1, lowRoot (17 / 2)] := by
  obtain ⟨-, parts, arbitrated⟩ := voices_arbitrated make_leap
  obtain ⟨outcomes, order, candidates, notes, houtcomes, horder, hcandidates, hnotes, sorted, -⟩ :=
    arbitrated ⟨bassPart, [lowRoot 1, lowRoot (17 / 2)]⟩ (List.mem_singleton.mpr rfl)
  exact ⟨make_leap, parts, outcomes, order, candidates, notes, houtcomes, horder, hcandidates, hnotes,
    sorted⟩

end Ostinato
