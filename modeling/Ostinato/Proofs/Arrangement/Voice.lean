import Ostinato.Proofs.Arrangement.Candidate
import Ostinato.Proofs.StableSort

/-!
# Voices

Engagements are ordered by falling specificity, so the candidates of a part come in falling specificity
too, and its notes are those of the candidates that win their beat.
-/

namespace Ostinato

open Success

/-! ### Rosters -/

theorem Engagement.notAfter_iff {e f : Engagement} :
    e.notAfter f = true ↔ f.span.specificity < e.span.specificity ∨
      e.span.specificity = f.span.specificity ∧ e.span.startBeat ≤ f.span.startBeat := by
  simp only [notAfter, Bool.or_eq_true, Bool.and_eq_true, decide_eq_true_eq]

theorem Engagement.notAfter_trans (e f g : Engagement) (hef : e.notAfter f = true)
    (hfg : f.notAfter g = true) : e.notAfter g = true := by
  rw [notAfter_iff] at *
  omega

theorem Engagement.notAfter_total (e f : Engagement) : (e.notAfter f || f.notAfter e) = true := by
  rw [Bool.or_eq_true, notAfter_iff, notAfter_iff]
  omega

variable {c : Catalog} {t : Timeline} {rules : List AppliedRule} {part : Part}

theorem Roster.make_eq_ok {partId : String} {r : Roster} :
    Roster.make c t partId rules = .ok r ↔ ∃ outcomes,
      (rules.filter (·.appliesTo partId)).mapM (Engagement.make c t) = .ok outcomes ∧
      r = ⟨(engaged outcomes).mergeSort Engagement.notAfter, omitted outcomes⟩ := by
  simp only [Roster.make, bind_eq_ok, pure_eq_ok]
  exact exists_congr fun _ => and_congr_right fun _ => eq_comm

theorem stablySorted_engagements (es : List Engagement) :
    StablySorted Engagement.notAfter es (es.mergeSort Engagement.notAfter) :=
  stablySorted_mergeSort Engagement.notAfter_trans Engagement.notAfter_total es

/-! ### Engagements -/

/-- An engagement is of the rule that it was made of, with the figure of that rule in the catalog and the span
of its slot. -/
theorem Engagement.make_eq_engagement {r : AppliedRule} {e : Engagement} :
    make c t r = .ok (.ok e) ↔ e.applied = r ∧ c.richRule? r.ruleId = some e.rule ∧
      ∃ length, figureOf? c e.rule = some (e.figure, length) ∧
        r.slot.span? t length = .ok (some e.span) := by
  constructor
  · intro h
    unfold make at h
    split at h
    · cases h
    · rename_i rule known
      split at h
      · cases h
      · rename_i figure length played
        obtain ⟨span, hspan, outcome⟩ := map_eq_ok.mp h
        cases span with
        | none => cases outcome
        | some span =>
          cases outcome
          exact ⟨rfl, known, length, played, hspan⟩
  · rintro ⟨rfl, known, length, played, hspan⟩
    simp only [make, known, played, hspan, Except.map]

theorem Engagement.span_of_make {r : AppliedRule} {e : Engagement} (h : make c t r = .ok (.ok e)) :
    e.applied = r ∧ ∃ length, r.slot.span? t length = .ok (some e.span) := by
  obtain ⟨applied, -, length, -, hspan⟩ := make_eq_engagement.mp h
  exact ⟨applied, length, hspan⟩

/-- The performance of a rule that is bound to some place: it is played once. -/
def Engagement.once (t : Timeline) (e : Engagement) : Performance :=
  let next := if e.span.nextChord < t.boundaries.length then e.span.nextChord else e.span.currentChord
  ⟨e, ⟨t, e.span.currentChord, next⟩, e.span.startBeat, e.span.currentChord⟩

theorem Engagement.performances_of_place {e : Engagement} (place : e.applied.slot ≠ .global) :
    e.performances t = [e.once t] := if_neg place

/-! ### Candidates of a roster -/

namespace Candidate

theorem engagement_of_mem_performances {e : Engagement} {p : Performance} (h : p ∈ e.performances t) :
    p.engagement = e := by
  unfold Engagement.performances at h
  split at h
  · obtain ⟨b, -, rfl⟩ := List.mem_map.mp h
    rfl
  · rw [List.mem_singleton.mp h]

theorem timeline_of_mem_performances {e : Engagement} {p : Performance} (h : p ∈ e.performances t) :
    p.context.timeline = t := by
  unfold Engagement.performances at h
  split at h
  · obtain ⟨b, -, rfl⟩ := List.mem_map.mp h
    rfl
  · rw [List.mem_singleton.mp h]

theorem ofEngagements_eq_ok {es : List Engagement} {cs : List Candidate} :
    ofEngagements t es = .ok cs ↔ ∃ css,
      (es.flatMap (·.performances t)).mapM ofPerformance = .ok css ∧ css.flatten = cs := by
  rw [ofEngagements, map_eq_ok]

theorem performance_of_mem {p : Performance} {cs : List Candidate} (h : ofPerformance p = .ok cs)
    {c : Candidate} (hc : c ∈ cs) : c.performance = p := by
  obtain ⟨events, -, rfl⟩ := map_eq_ok.mp h
  obtain ⟨e, -, rfl⟩ := List.mem_map.mp hc
  rfl

theorem performance_of_mem_flatten {ps : List Performance} {css : List (List Candidate)}
    (h : ps.mapM ofPerformance = .ok css) {c : Candidate} (hc : c ∈ css.flatten) :
    c.performance ∈ ps := by
  obtain ⟨cs, hcs, hc⟩ := List.mem_flatten.mp hc
  obtain ⟨p, hp, made⟩ := exists_of_mem_mapM h hcs
  rwa [performance_of_mem made hc]

theorem pairwise_flatten_of_performances {ps : List Performance} {css : List (List Candidate)}
    (falling : ps.Pairwise fun p q =>
      q.engagement.span.specificity ≤ p.engagement.span.specificity)
    (h : ps.mapM ofPerformance = .ok css) :
    css.flatten.Pairwise fun c d => d.specificity ≤ c.specificity := by
  have made := mapM_eq_ok.mp h
  clear h
  induction made with
  | nil => exact List.Pairwise.nil
  | @cons p cs ps css hcs rest ih =>
    obtain ⟨below, falling⟩ := List.pairwise_cons.mp falling
    rw [List.flatten_cons, List.pairwise_append]
    refine ⟨List.pairwise_of_forall_mem_list fun c hc d hd => ?_, ih falling, fun c hc d hd => ?_⟩
    · -- candidates of one performance share its specificity
      unfold specificity
      rw [performance_of_mem hcs hc, performance_of_mem hcs hd]
    · have later := below _ (performance_of_mem_flatten (mapM_eq_ok.mpr rest) hd)
      rwa [← performance_of_mem hcs hc] at later

/-- Candidates come in falling specificity if the engagements do. -/
theorem pairwise_specificity {es : List Engagement} {cs : List Candidate}
    (sorted : es.Pairwise fun e f => e.notAfter f = true) (h : ofEngagements t es = .ok cs) :
    cs.Pairwise fun c d => d.specificity ≤ c.specificity := by
  obtain ⟨css, hcss, rfl⟩ := ofEngagements_eq_ok.mp h
  refine pairwise_flatten_of_performances (List.pairwise_flatMap.mpr ⟨fun e _ => ?_, ?_⟩) hcss
  · refine List.pairwise_of_forall_mem_list fun p hp q hq => ?_
    rw [engagement_of_mem_performances hp, engagement_of_mem_performances hq]
  · refine sorted.imp fun {e f} hef p hp q hq => ?_
    rw [engagement_of_mem_performances hp, engagement_of_mem_performances hq]
    rcases Engagement.notAfter_iff.mp hef with above | ⟨same, -⟩
    · exact above.le
    · exact same.ge

theorem isStartBeat_of_mem {es : List Engagement} {cs : List Candidate}
    (h : ofEngagements t es = .ok cs) {c : Candidate} (hc : c ∈ cs) : IsStartBeat c.beat := by
  obtain ⟨css, hcss, rfl⟩ := ofEngagements_eq_ok.mp h
  obtain ⟨cs, hcs, hc⟩ := List.mem_flatten.mp hc
  obtain ⟨p, -, made⟩ := exists_of_mem_mapM hcss hcs
  obtain ⟨events, hevents, rfl⟩ := map_eq_ok.mp made
  obtain ⟨e, he, rfl⟩ := List.mem_map.mp hc
  obtain ⟨riff, -, placed⟩ := bind_eq_ok.mp hevents
  exact isStartBeat_of_mem_place (Failure.ofNumber_eq_ok.mp placed) he

theorem note_startBeat {c : Candidate} {n : NoteEvent} (h : c.note t part = .ok n) :
    n.startBeat = c.beat := by
  obtain ⟨pitch, -, rfl⟩ := map_eq_ok.mp (Failure.ofNumber_eq_ok.mp h)
  rfl

end Candidate

/-! ### Voices -/

def NoteEvent.notAfter (m n : NoteEvent) : Bool := m.startBeat.notAfter n.startBeat

theorem NoteEvent.stablySorted_mergeSort (notes : List NoteEvent) :
    StablySorted notAfter notes (notes.mergeSort notAfter) :=
  Ostinato.stablySorted_mergeSort
    (fun l m n => Binary64.notAfter_trans l.startBeat m.startBeat n.startBeat)
    (fun m n => Binary64.notAfter_total m.startBeat n.startBeat) notes

def winningNotes (t : Timeline) (part : Part) (cs : List Candidate) : Except Failure (List NoteEvent) :=
  (cs.filter (Candidate.wins cs)).mapM (Candidate.note t part)

theorem Score.foldlM_perform_empty {es : List Engagement}
    (sorted : es.Pairwise fun e f => e.notAfter f = true) {notes : List NoteEvent} :
    (∃ s, (es.flatMap (·.performances t)).foldlM (Score.perform t part) .empty = .ok s ∧
      s.notes = notes) ↔
    ∃ cs, Candidate.ofEngagements t es = .ok cs ∧ winningNotes t part cs = .ok notes := by
  simp only [Candidate.foldlM_perform_eq_ok, Candidate.ofEngagements_eq_ok]
  constructor
  · rintro ⟨s, ⟨css, hcss, played⟩, rfl⟩
    have falling := Candidate.pairwise_specificity sorted
      (Candidate.ofEngagements_eq_ok.mpr ⟨css, hcss, rfl⟩)
    obtain ⟨notes, hnotes, all⟩ := (Candidate.foldlM_play_eq_ok Score.covers_empty falling _).mp
      ⟨s, played, rfl⟩
    exact ⟨_, ⟨css, hcss, rfl⟩, all ▸ hnotes⟩
  · rintro ⟨_, ⟨css, hcss, rfl⟩, hnotes⟩
    have falling := Candidate.pairwise_specificity sorted
      (Candidate.ofEngagements_eq_ok.mpr ⟨css, hcss, rfl⟩)
    obtain ⟨s, played, all⟩ := (Candidate.foldlM_play_eq_ok Score.covers_empty falling notes).mpr
      ⟨notes, hnotes, rfl⟩
    exact ⟨s, ⟨css, hcss, played⟩, all⟩

theorem Voice.make_eq_ok {v : Voice} {omissions : List Omission} :
    Voice.make c t rules part = .ok (v, omissions) ↔ ∃ outcomes cs notes,
      (rules.filter (·.appliesTo part.id)).mapM (Engagement.make c t) = .ok outcomes ∧
      Candidate.ofEngagements t ((Roster.engaged outcomes).mergeSort Engagement.notAfter) = .ok cs ∧
      winningNotes t part cs = .ok notes ∧
      v = ⟨part, notes.mergeSort NoteEvent.notAfter⟩ ∧ omissions = Roster.omitted outcomes := by
  simp only [Voice.make, bind_eq_ok, pure_eq_ok, Failure.ofNumber_eq_ok, Roster.make_eq_ok]
  constructor
  · rintro ⟨_, ⟨outcomes, made, rfl⟩, s, played, eq⟩
    obtain ⟨rfl, rfl⟩ := Prod.mk.inj eq
    have sorted := (stablySorted_engagements (Roster.engaged outcomes)).inOrder
    obtain ⟨cs, hcs, hnotes⟩ := (Score.foldlM_perform_empty sorted).mp ⟨s, played, rfl⟩
    exact ⟨outcomes, cs, s.notes, made, hcs, hnotes, rfl, rfl⟩
  · rintro ⟨outcomes, cs, notes, made, hcs, hnotes, rfl, rfl⟩
    have sorted := (stablySorted_engagements (Roster.engaged outcomes)).inOrder
    obtain ⟨s, played, rfl⟩ := (Score.foldlM_perform_empty sorted).mpr ⟨cs, hcs, hnotes⟩
    exact ⟨_, ⟨outcomes, made, rfl⟩, s, played, rfl⟩

/-- A voice whose notes come in the order of their beats already. -/
theorem Voice.make_of_notes {roster : Roster} {notes : List NoteEvent}
    (hr : Roster.make c t part.id rules = .ok roster)
    (played : ((roster.engagements.flatMap (·.performances t)).foldlM (Score.perform t part) .empty).map
      Score.notes = .ok notes)
    (sorted : notes.Pairwise fun m n => m.notAfter n = true) :
    Voice.make c t rules part = .ok (⟨part, notes⟩, roster.omissions) := by
  obtain ⟨score, hscore, rfl⟩ := map_eq_ok.mp played
  have inOrder : score.inOrder = score.notes := List.mergeSort_of_pairwise sorted
  simp only [Voice.make, bind_eq_ok, pure_eq_ok, Failure.ofNumber_eq_ok]
  exact ⟨roster, hr, score, hscore, by rw [inOrder]⟩

theorem isStartBeat_of_winningNotes {es : List Engagement} {cs : List Candidate}
    {notes : List NoteEvent} (hcs : Candidate.ofEngagements t es = .ok cs)
    (hnotes : winningNotes t part cs = .ok notes) {n : NoteEvent} (hn : n ∈ notes) :
    IsStartBeat n.startBeat := by
  obtain ⟨c, hc, made⟩ := exists_of_mem_mapM hnotes hn
  rw [Candidate.note_startBeat made]
  exact Candidate.isStartBeat_of_mem hcs (List.mem_filter.mp hc).1

/-! ### Arrangements -/

variable {p : Progression} {parts : List Part} {a : Arrangement}

theorem Arrangement.make_eq_ok :
    Arrangement.make p parts rules c = .ok a ↔ ∃ results,
      (parts.filter fun part => !part.muted).mapM
        (Voice.make c (.ofProgression p) (BindingSet.ofList rules).toList) = .ok results ∧
      a = ⟨.ofProgression p, results.map (·.1),
        ((results.flatMap (·.2)).map Omission.message).eraseDups⟩ := by
  simp only [Arrangement.make, bind_eq_ok, pure_eq_ok]
  exact exists_congr fun _ => and_congr_right fun _ => eq_comm

theorem Arrangement.timeline_eq (h : Arrangement.make p parts rules c = .ok a) :
    a.timeline = .ofProgression p := by
  obtain ⟨_, -, rfl⟩ := make_eq_ok.mp h
  rfl

theorem Arrangement.parts_eq (h : Arrangement.make p parts rules c = .ok a) :
    a.voices.map (·.part) = parts.filter fun part => !part.muted := by
  obtain ⟨results, hresults, rfl⟩ := make_eq_ok.mp h
  rw [List.map_map, ← List.map_id (parts.filter _)]
  refine map_eq_map_of_mapM (fun part result made => ?_) hresults
  obtain ⟨_, _, _, _, _, _, hv, -⟩ := Voice.make_eq_ok.mp made
  exact congrArg Voice.part hv

/-- How a voice of an arrangement came about. -/
theorem Arrangement.voice_of_mem (h : Arrangement.make p parts rules c = .ok a) {v : Voice}
    (hv : v ∈ a.voices) : ∃ outcomes cs notes,
      ((BindingSet.ofList rules).toList.filter (·.appliesTo v.part.id)).mapM
        (Engagement.make c a.timeline) = .ok outcomes ∧
      Candidate.ofEngagements a.timeline ((Roster.engaged outcomes).mergeSort Engagement.notAfter) =
        .ok cs ∧
      winningNotes a.timeline v.part cs = .ok notes ∧ v.notes = notes.mergeSort NoteEvent.notAfter := by
  obtain ⟨results, hresults, rfl⟩ := make_eq_ok.mp h
  obtain ⟨⟨_, omissions⟩, hresult, rfl⟩ := List.mem_map.mp hv
  obtain ⟨part, -, made⟩ := exists_of_mem_mapM hresults hresult
  obtain ⟨outcomes, cs, notes, houtcomes, hcs, hnotes, rfl, -⟩ := Voice.make_eq_ok.mp made
  exact ⟨outcomes, cs, notes, houtcomes, hcs, hnotes, rfl⟩

end Ostinato
