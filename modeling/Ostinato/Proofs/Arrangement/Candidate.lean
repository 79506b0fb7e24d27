import Ostinato.Arrangement
import Ostinato.Proofs.Placement

/-!
# Candidates

A candidate is an event that some rule would play. While candidates are played one after another, the
owner of a beat is the greatest specificity among those played on it so far; since they come in falling
specificity, a candidate is played exactly if none of all candidates on its beat is more specific.
-/

namespace Ostinato

open Success

structure Candidate where
  performance : Performance
  event : PlacedEvent

namespace Candidate

def beat (c : Candidate) : Binary64 := c.event.startBeat

def specificity (c : Candidate) : Nat := c.performance.engagement.span.specificity

def note (t : Timeline) (part : Part) (c : Candidate) : Except Failure NoteEvent :=
  Failure.ofNumber (c.event.note (soundingContext t c.performance.fallbackChord c.beat)
    (Register.choose c.performance.engagement.applied part (some c.performance.engagement.rule)) part)

theorem note_eq_ok {t : Timeline} {part : Part} {d : Candidate} {n : NoteEvent} :
    d.note t part = .ok n ↔ ∃ pitch,
      d.event.pitchRef.resolve (soundingContext t d.performance.fallbackChord d.beat) = .ok pitch ∧
      n = ⟨d.beat, d.event.duration, pitch.degree,
        Register.octave (Register.choose d.performance.engagement.applied part
          (some d.performance.engagement.rule)), part.id, part.name⟩ := by
  rw [note, Failure.ofNumber_eq_ok, PlacedEvent.note, map_eq_ok]
  exact exists_congr fun _ => and_congr_right fun _ => eq_comm

/-- Whether none of all candidates on the same beat is more specific. -/
def wins (all : List Candidate) (c : Candidate) : Bool :=
  decide (∀ d ∈ all, d.beat = c.beat → d.specificity ≤ c.specificity)

theorem wins_iff {all : List Candidate} {c : Candidate} :
    c.wins all = true ↔ ∀ d ∈ all, d.beat = c.beat → d.specificity ≤ c.specificity :=
  decide_eq_true_iff

def ofPerformance (p : Performance) : Except Failure (List Candidate) :=
  p.events.map fun events => events.map fun e => ⟨p, e⟩

/-- The candidates of engagements: the events of each riff or walk, at each place it is played at. -/
def ofEngagements (t : Timeline) (es : List Engagement) : Except Failure (List Candidate) :=
  ((es.flatMap (·.performances t)).mapM ofPerformance).map List.flatten

def play (t : Timeline) (part : Part) (s : Score) (c : Candidate) : Except Failure Score :=
  Score.play t part c.performance s c.event

/-! ### Playing candidates -/

variable {t : Timeline} {part : Part} {s s' : Score}

theorem play_of_admits {c : Candidate} (h : s.admits c.beat c.specificity = true) :
    c.play t part s = .ok s' ↔ ∃ n, c.note t part = .ok n ∧
      s' = ⟨(c.beat, c.specificity) :: s.owners, s.notes ++ [n]⟩ := by
  have open_beat : s.admits c.event.startBeat c.performance.engagement.span.specificity = true := h
  simp only [play, Score.play, open_beat, if_true, bind_eq_ok, pure_eq_ok]
  exact exists_congr fun _ => and_congr_right fun _ => eq_comm

theorem play_of_not_admits {c : Candidate} (h : s.admits c.beat c.specificity = false) :
    c.play t part s = .ok s := by
  have closed_beat : s.admits c.event.startBeat c.performance.engagement.span.specificity = false := h
  simp only [play, Score.play, closed_beat, Bool.false_eq_true, if_false]

theorem perform_eq_ok {p : Performance} :
    Score.perform t part s p = .ok s' ↔
      ∃ cs, ofPerformance p = .ok cs ∧ cs.foldlM (play t part · ·) s = .ok s' := by
  simp only [Score.perform, bind_eq_ok, ofPerformance, map_eq_ok]
  constructor
  · rintro ⟨events, he, hs⟩
    refine ⟨_, ⟨events, he, rfl⟩, ?_⟩
    rw [List.foldlM_map]
    exact hs
  · rintro ⟨_, ⟨events, he, rfl⟩, hs⟩
    rw [List.foldlM_map] at hs
    exact ⟨events, he, hs⟩

theorem foldlM_perform_eq_ok {ps : List Performance} :
    ps.foldlM (Score.perform t part) s = .ok s' ↔
      ∃ css, ps.mapM ofPerformance = .ok css ∧ css.flatten.foldlM (play t part · ·) s = .ok s' := by
  induction ps generalizing s with
  | nil =>
    simp only [List.foldlM_nil, List.mapM_nil, pure_eq_ok]
    constructor
    · rintro rfl
      exact ⟨[], rfl, rfl⟩
    · rintro ⟨_, rfl, h⟩
      exact pure_eq_ok.mp h
  | cons p ps ih =>
    simp only [List.foldlM_cons, bind_eq_ok, perform_eq_ok, ih, List.mapM_cons, pure_eq_ok]
    constructor
    · rintro ⟨s₁, ⟨cs, hcs, h₁⟩, css, hcss, h₂⟩
      refine ⟨cs :: css, ⟨cs, hcs, css, hcss, rfl⟩, ?_⟩
      rw [List.flatten_cons, List.foldlM_append, bind_eq_ok]
      exact ⟨s₁, h₁, h₂⟩
    · rintro ⟨_, ⟨cs, hcs, css, hcss, rfl⟩, h⟩
      rw [List.flatten_cons, List.foldlM_append, bind_eq_ok] at h
      obtain ⟨s₁, h₁, h₂⟩ := h
      exact ⟨s₁, ⟨cs, hcs, h₁⟩, css, hcss, h₂⟩

end Candidate

/-! ### Owners of beats -/

namespace Score

/-- The owners of beats are the greatest specificities of what was played there. -/
def Covers (s : Score) (played : List Candidate) : Prop :=
  ∀ beat k, s.admits beat k = true ↔ ∀ c ∈ played, c.beat = beat → c.specificity ≤ k

theorem covers_empty : empty.Covers [] := by
  intro beat k
  simp [admits, owner?, empty]

theorem admits_cons (b beat : Binary64) (j k : Nat) (owners : List (Binary64 × Nat))
    (notes : List NoteEvent) :
    (⟨(b, j) :: owners, notes⟩ : Score).admits beat k =
      if b = beat then decide (j ≤ k) else (⟨owners, notes⟩ : Score).admits beat k := by
  by_cases hb : b = beat
  · simp [admits, owner?, hb]
  · simp [admits, owner?, hb]

variable {t : Timeline} {part : Part} {s s' : Score} {played : List Candidate}

theorem Covers.play {c : Candidate} (covers : s.Covers played) (h : c.play t part s = .ok s') :
    s'.Covers (played ++ [c]) := by
  intro beat k
  simp only [List.forall_mem_append, List.forall_mem_singleton, ← covers beat k]
  cases admitted : s.admits c.beat c.specificity with
  | true =>
    obtain ⟨n, -, rfl⟩ := (Candidate.play_of_admits admitted).mp h
    rw [admits_cons]
    by_cases hb : c.beat = beat
    · -- the new owner is at least as specific as all that were played on the beat
      subst hb
      have greatest := (covers c.beat c.specificity).mp admitted
      rw [if_pos rfl, decide_eq_true_eq]
      refine ⟨fun hk => ⟨(covers _ _).mpr fun d hd same => (greatest d hd same).trans hk, fun _ => hk⟩,
        fun hk => hk.2 rfl⟩
    · rw [if_neg hb]
      exact ⟨fun hk => ⟨hk, fun same => absurd same hb⟩, fun hk => hk.1⟩
  | false =>
    obtain rfl : s = s' := Except.ok.inj ((Candidate.play_of_not_admits admitted).symm.trans h)
    refine ⟨fun hk => ⟨hk, ?_⟩, fun hk => hk.1⟩
    rintro rfl
    have beaten : ¬ ∀ d ∈ played, d.beat = c.beat → d.specificity ≤ c.specificity := by
      rw [← covers, admitted]
      exact Bool.false_ne_true
    push Not at beaten
    obtain ⟨d, hd, same, above⟩ := beaten
    exact above.le.trans ((covers c.beat k).mp hk d hd same)

end Score

namespace Candidate

variable {t : Timeline} {part : Part}

theorem wins_iff_admits {s : Score} {played rest : List Candidate} {c : Candidate}
    (covers : s.Covers played)
    (falling : (played ++ c :: rest).Pairwise fun d e => e.specificity ≤ d.specificity) :
    c.wins (played ++ c :: rest) = true ↔ s.admits c.beat c.specificity = true := by
  have later := (List.pairwise_cons.mp (List.pairwise_append.mp falling).2.1).1
  rw [wins_iff, covers]
  simp only [List.forall_mem_append, List.forall_mem_cons]
  exact ⟨fun h => h.1, fun h => ⟨h, fun _ => le_rfl, fun d hd _ => later d hd⟩⟩

/-- The notes that are played are those of the candidates that win, in the order of playing. -/
theorem foldlM_play_eq_ok {cs played : List Candidate} {s : Score} (covers : s.Covers played)
    (falling : (played ++ cs).Pairwise fun d e => e.specificity ≤ d.specificity)
    (all : List NoteEvent) :
    (∃ s', cs.foldlM (play t part · ·) s = .ok s' ∧ s'.notes = all) ↔
      ∃ notes, (cs.filter (wins (played ++ cs))).mapM (note t part) = .ok notes ∧
        s.notes ++ notes = all := by
  induction cs generalizing played s with
  | nil => simp only [List.foldlM_nil, List.filter_nil, List.mapM_nil, pure_eq_ok, exists_eq_left',
      List.append_nil]
  | cons c cs ih =>
    have shift : played ++ c :: cs = (played ++ [c]) ++ cs := by simp
    have decision := wins_iff_admits covers falling
    rw [shift] at decision falling ⊢
    cases admitted : s.admits c.beat c.specificity with
    | true =>
      rw [List.filter_cons_of_pos (decision.mpr admitted)]
      simp only [List.foldlM_cons, List.mapM_cons, bind_eq_ok, pure_eq_ok]
      constructor
      · rintro ⟨s', ⟨s₁, first, rest⟩, hall⟩
        have later := ih (covers.play first) falling
        obtain ⟨n, hn, rfl⟩ := (play_of_admits admitted).mp first
        obtain ⟨more, hmore, hall⟩ := later.mp ⟨s', rest, hall⟩
        exact ⟨n :: more, ⟨n, hn, more, hmore, rfl⟩, by simpa using hall⟩
      · rintro ⟨_, ⟨n, hn, more, hmore, rfl⟩, hall⟩
        have first : c.play t part s = .ok _ := (play_of_admits admitted).mpr ⟨n, hn, rfl⟩
        obtain ⟨s', rest, hall⟩ := (ih (covers.play first) falling).mpr
          ⟨more, hmore, by simpa using hall⟩
        exact ⟨s', ⟨_, first, rest⟩, hall⟩
    | false =>
      have lost : ¬ c.wins (played ++ [c] ++ cs) = true := by
        rw [decision, admitted]
        exact Bool.false_ne_true
      have unchanged : c.play t part s = .ok s := play_of_not_admits admitted
      rw [List.filter_cons_of_neg lost, ← ih (covers.play unchanged) falling]
      simp only [List.foldlM_cons, unchanged, bind_eq_ok, Except.ok.injEq, exists_eq_left']

end Candidate

end Ostinato
