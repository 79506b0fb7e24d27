import Ostinato.Proofs.Arrangement.Voice

/-!
# Undisputed beats

Where all performances are equally specific, no beat is refused to any of them: every event is played,
one performance after another, and the first thing that fails is the failure of the whole.
-/

namespace Ostinato

open Success

variable {c : Catalog} {t : Timeline} {rules : List AppliedRule} {part : Part}

/-- The notes of a performance that is refused no beat. -/
def Performance.notes (t : Timeline) (part : Part) (p : Performance) : Except Failure (List NoteEvent) := do
  (← p.events).mapM fun e => Candidate.note t part ⟨p, e⟩

namespace Score

variable {s : Score} {p : Performance} {k : Nat}

theorem admits_of_owners (h : ∀ o ∈ s.owners, o.2 = k) (beat : Binary64) : s.admits beat k = true := by
  unfold admits owner?
  cases hf : s.owners.find? fun o => o.1 == beat with
  | none => rfl
  | some o =>
    have hk : o.2 = k := h o (List.mem_of_find?_eq_some hf)
    simp [hk]

theorem play_of_owners (hp : p.engagement.span.specificity = k) (h : ∀ o ∈ s.owners, o.2 = k)
    (e : PlacedEvent) :
    Score.play t part p s e = (Candidate.note t part ⟨p, e⟩).map fun n =>
      ⟨(e.startBeat, k) :: s.owners, s.notes ++ [n]⟩ := by
  have admitted : s.admits e.startBeat k = true := admits_of_owners h e.startBeat
  simp only [play, hp, admitted, if_true]
  change (Candidate.note t part ⟨p, e⟩ >>= fun n => _) = _
  cases Candidate.note t part ⟨p, e⟩ with
  | error f => rfl
  | ok n => rfl

theorem foldlM_play_of_owners (t : Timeline) (part : Part)
    (hp : p.engagement.span.specificity = k) (events : List PlacedEvent) (h : ∀ o ∈ s.owners, o.2 = k) :
    events.foldlM (Score.play t part p) s =
      (events.mapM fun e => Candidate.note t part ⟨p, e⟩).map fun notes =>
        ⟨(events.map fun e => (e.startBeat, k)).reverse ++ s.owners, s.notes ++ notes⟩ := by
  induction events generalizing s with
  | nil => simp [pure, Except.pure, Except.map]
  | cons e events ih =>
    rw [List.foldlM_cons, List.mapM_cons, play_of_owners hp h]
    cases Candidate.note t part ⟨p, e⟩ with
    | error f => rfl
    | ok n =>
      -- the beat that is taken now is taken with the same rank as those before
      have owned : ∀ o ∈ (e.startBeat, k) :: s.owners, o.2 = k := by
        intro o ho
        rcases List.mem_cons.mp ho with rfl | ho
        · rfl
        · exact h o ho
      have rest := ih (s := ⟨(e.startBeat, k) :: s.owners, s.notes ++ [n]⟩) owned
      simp only [Except.map, bind, Except.bind, rest]
      cases events.mapM fun e => Candidate.note t part ⟨p, e⟩ with
      | error f => rfl
      | ok notes => simp [pure, Except.pure]

/-- Performances of one specificity are played in full. -/
theorem foldlM_perform_of_owners (t : Timeline) (part : Part) {ps : List Performance}
    (hps : ∀ p ∈ ps, p.engagement.span.specificity = k) (h : ∀ o ∈ s.owners, o.2 = k) :
    (ps.foldlM (perform t part) s).map Score.notes =
      (ps.mapM (Performance.notes t part)).map fun notes => s.notes ++ notes.flatten := by
  induction ps generalizing s with
  | nil => simp [pure, Except.pure, Except.map]
  | cons p ps ih =>
    obtain ⟨hp, hps⟩ := List.forall_mem_cons.mp hps
    rw [List.foldlM_cons, List.mapM_cons, perform, Performance.notes]
    cases p.events with
    | error f => rfl
    | ok events =>
      have played := foldlM_play_of_owners t part hp events h
      simp only [bind, Except.bind, played]
      cases events.mapM fun e => Candidate.note t part ⟨p, e⟩ with
      | error f => rfl
      | ok notes =>
        have owned : ∀ o ∈ (events.map fun e => (e.startBeat, k)).reverse ++ s.owners, o.2 = k := by
          intro o ho
          rcases List.mem_append.mp ho with ho | ho
          · obtain ⟨e, -, rfl⟩ := List.mem_map.mp (List.mem_reverse.mp ho)
            rfl
          · exact h o ho
        have rest := ih hps (s := ⟨_, s.notes ++ notes⟩) owned
        simp only [Except.map] at rest ⊢
        rw [rest]
        cases ps.mapM (Performance.notes t part) with
        | error f => rfl
        | ok more => simp [pure, Except.pure]

end Score

/-! ### Voices -/

theorem Voice.map_fst_make {r : Roster} {k : Nat} (hr : Roster.make c t part.id rules = .ok r)
    (hk : ∀ e ∈ r.engagements, e.span.specificity = k) :
    (Voice.make c t rules part).map Prod.fst =
      ((r.engagements.flatMap (·.performances t)).mapM (Performance.notes t part)).map fun notes =>
        ⟨part, notes.flatten.mergeSort NoteEvent.notAfter⟩ := by
  have hps : ∀ p ∈ r.engagements.flatMap (·.performances t), p.engagement.span.specificity = k := by
    intro p hp
    obtain ⟨e, he, hp⟩ := List.mem_flatMap.mp hp
    rw [Candidate.engagement_of_mem_performances hp]
    exact hk e he
  have played := Score.foldlM_perform_of_owners (s := .empty) t part hps
    fun o ho => absurd ho List.not_mem_nil
  rw [Voice.make, hr]
  simp only [Failure.ofNumber_ok, bind, Except.bind]
  cases hs : (r.engagements.flatMap (·.performances t)).foldlM (Score.perform t part) .empty with
  | error f =>
    rw [hs] at played
    cases hn : (r.engagements.flatMap (·.performances t)).mapM (Performance.notes t part) with
    | error g =>
      rw [hn] at played
      exact congrArg Except.error (Except.error.inj played)
    | ok notes =>
      rw [hn] at played
      cases played
  | ok s =>
    rw [hs] at played
    cases hn : (r.engagements.flatMap (·.performances t)).mapM (Performance.notes t part) with
    | error g =>
      rw [hn] at played
      cases played
    | ok notes =>
      rw [hn] at played
      have all : s.notes = notes.flatten := Except.ok.inj played
      simp only [pure, Except.pure, Except.map, Score.inOrder, all]
      rfl

theorem Roster.make_single {b : AppliedRule} {e : Engagement} (applies : b.appliesTo part.id = true)
    (made : Engagement.make c t b = .ok (.ok e)) : Roster.make c t part.id [b] = .ok ⟨[e], []⟩ := by
  have heard : [b].filter (·.appliesTo part.id) = [b] := by simp [applies]
  refine Roster.make_eq_ok.mpr ⟨[.ok e], ?_, by simp [engaged, omitted]⟩
  rw [heard]
  exact mapM_eq_ok.mpr (.cons made .nil)

/-- The voice of a part for which only one rule is bound. -/
theorem Voice.map_fst_make_single {b : AppliedRule} {e : Engagement} (applies : b.appliesTo part.id = true)
    (made : Engagement.make c t b = .ok (.ok e)) :
    (Voice.make c t [b] part).map Prod.fst =
      ((e.performances t).mapM (Performance.notes t part)).map fun notes =>
        ⟨part, notes.flatten.mergeSort NoteEvent.notAfter⟩ := by
  have hk : ∀ f ∈ [e], f.span.specificity = e.span.specificity := by
    intro f hf
    rw [List.mem_singleton.mp hf]
  rw [map_fst_make (Roster.make_single applies made) hk, List.flatMap_cons, List.flatMap_nil,
    List.append_nil]

theorem Arrangement.map_voices_make (p : Progression) (parts : List Part) (rules : List AppliedRule)
    (c : Catalog) :
    (Arrangement.make p parts rules c).map (·.voices) =
      (parts.filter fun part => !part.muted).mapM fun part =>
        (Voice.make c (.ofProgression p) (BindingSet.ofList rules).toList part).map Prod.fst := by
  rw [← map_mapM, Arrangement.make]
  cases (parts.filter fun part => !part.muted).mapM
    (Voice.make c (.ofProgression p) (BindingSet.ofList rules).toList) with
  | error f => rfl
  | ok results => rfl

end Ostinato
