import Mathlib.Data.List.Forall2
import Ostinato.Proofs.Timeline.Degrees
import Ostinato.Proofs.Timeline.Layout

/-!
# Outlines of timelines

What is left of a timeline without its key and the degrees of its chords: which chord is held on which
beats. Slots, the search for a beat and the places that rules are played at see no more than that.
-/

namespace Ostinato

namespace Timeline

def outline (t : Timeline) : Timeline := { t.mapDegrees fun _ => "" with key := "" }

variable {t t' : Timeline}

theorem nextChordIndex_outline (t : Timeline) (i : Int) : t.outline.nextChordIndex i = t.nextChordIndex i :=
  nextChordIndex_mapDegrees (fun _ => "") t i

theorem chordIndexAt?_outline (t : Timeline) (beat : Amount) :
    t.outline.chordIndexAt? beat = t.chordIndexAt? beat := chordIndexAt?_mapDegrees (fun _ => "") t beat

theorem barsFrom_of_held {chords chords' : List Chord}
    (h : List.Forall₂ (fun c c' => c'.held = c.held) chords chords') (k b : Nat) :
    (barsFrom k b chords').map (fun bar => { bar with chordDegree := "" }) =
      (barsFrom k b chords).map fun bar => { bar with chordDegree := "" } := by
  induction h generalizing k b with
  | nil => rfl
  | cons held _ ih =>
    simp only [barsFrom, held, List.map_append, List.map_map, ih]
    rfl

theorem boundariesFrom_of_held {chords chords' : List Chord}
    (h : List.Forall₂ (fun c c' => c'.held = c.held) chords chords') (k b : Nat) :
    (boundariesFrom k b chords').map (fun c => { c with chordDegree := "" }) =
      (boundariesFrom k b chords).map fun c => { c with chordDegree := "" } := by
  induction h generalizing k b with
  | nil => rfl
  | cons held _ ih => simp only [boundariesFrom, held, List.map_cons, ih]

/-- Progressions whose chords are held equally long have one outline. -/
theorem outline_ofProgression {p p' : Progression}
    (h : List.Forall₂ (fun c c' => c'.held = c.held) p.chords p'.chords) :
    (ofProgression p).outline = (ofProgression p').outline := by
  have bars := barsFrom_of_held h 0 0
  have boundaries := boundariesFrom_of_held h 0 0
  simp only [outline, mapDegrees, ofProgression, bars, boundaries]

end Timeline

variable {t t' : Timeline}

theorem Slot.span?_outline (s : Slot) (t : Timeline) (length : Amount) :
    s.span? t.outline length = s.span? t length := by
  rw [← span?_mapDegrees (fun _ => "") s t length]
  cases s <;> rfl

theorem Engagement.make_of_outline (c : Catalog) (h : t.outline = t'.outline) : make c t = make c t' := by
  funext a
  have spans (length : Amount) : a.slot.span? t length = a.slot.span? t' length := by
    rw [← Slot.span?_outline, h, Slot.span?_outline]
  simp only [make, spans]

/-- The performance, with its context reduced to the outline of the timeline. -/
def Performance.outline (q : Performance) : Performance :=
  { q with context := { q.context with timeline := q.context.timeline.outline } }

theorem Engagement.performances_outline (t : Timeline) (e : Engagement) :
    e.performances t.outline = (e.performances t).map Performance.outline := by
  have rekeyed : e.performances t.outline = (e.performances (t.mapDegrees fun _ => "")).map fun q =>
      { q with context := { q.context with timeline := { q.context.timeline with key := "" } } } := by
    unfold performances
    split
    · rw [List.map_map]
      rfl
    · rfl
  rw [rekeyed, performances_mapDegrees, List.map_map]
  rfl

/-- Over timelines of one outline an engagement is played at the same places. -/
theorem Engagement.performances_of_outline (h : t.outline = t'.outline) (e : Engagement) :
    List.Forall₂ (fun q q' => q.outline = q'.outline) (e.performances t) (e.performances t') := by
  have same : (e.performances t).map Performance.outline = (e.performances t').map Performance.outline := by
    rw [← performances_outline, h, performances_outline]
  rw [← List.forall₂_eq_eq_eq, List.forall₂_map_left_iff, List.forall₂_map_right_iff] at same
  exact same

end Ostinato
