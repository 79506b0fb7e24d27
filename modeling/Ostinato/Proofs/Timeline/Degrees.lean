import Ostinato.Arrangement

/-!
# Degrees on a timeline

Only pitches look at the degrees of chords. With other degrees, slots span the same beats and rules are
played at the same places.
-/

namespace Ostinato

variable (f : String → String)

/-! ### Timelines -/

namespace Timeline

/-- The timeline with other degrees of its chords. -/
def mapDegrees (t : Timeline) : Timeline :=
  { t with
    bars := t.bars.map fun b => { b with chordDegree := f b.chordDegree }
    boundaries := t.boundaries.map fun b => { b with chordDegree := f b.chordDegree } }

variable (t : Timeline)

@[simp] theorem length_boundaries_mapDegrees :
    (t.mapDegrees f).boundaries.length = t.boundaries.length := List.length_map _

@[simp] theorem totalBeats_mapDegrees : (t.mapDegrees f).totalBeats = t.totalBeats := by
  simp [totalBeats, mapDegrees]

@[simp] theorem nextChordIndex_mapDegrees (i : Int) :
    (t.mapDegrees f).nextChordIndex i = t.nextChordIndex i := by
  simp [nextChordIndex]

theorem chordDegree?_mapDegrees (i : Int) :
    (t.mapDegrees f).chordDegree? i = (t.chordDegree? i).map f := by
  unfold chordDegree? itemAt? mapDegrees
  split
  · simp only [List.getElem?_map, Option.map_map]
    rfl
  · rfl

@[simp] theorem chordIndexAt?_mapDegrees (beat : Amount) :
    (t.mapDegrees f).chordIndexAt? beat = t.chordIndexAt? beat := by
  simp only [chordIndexAt?, mapDegrees, List.find?_map, Option.map_map]
  rfl

variable {f} {g : Chord → Chord} (held : ∀ c, (g c).held = c.held) (root : ∀ c, (g c).root = f c.root)
include held root

theorem barsFrom_map (k b : Nat) (chords : List Chord) :
    barsFrom k b (chords.map g) =
      (barsFrom k b chords).map fun bar => { bar with chordDegree := f bar.chordDegree } := by
  induction chords generalizing k b with
  | nil => rfl
  | cons c rest ih =>
    simp only [List.map_cons, barsFrom, held, root, ih, List.map_append, List.map_map]
    rfl

theorem boundariesFrom_map (k b : Nat) (chords : List Chord) :
    boundariesFrom k b (chords.map g) =
      (boundariesFrom k b chords).map fun c => { c with chordDegree := f c.chordDegree } := by
  induction chords generalizing k b with
  | nil => rfl
  | cons c rest ih => simp only [List.map_cons, boundariesFrom, held, root, ih]

theorem ofProgression_map (p : Progression) :
    ofProgression { p with chords := p.chords.map g } = (ofProgression p).mapDegrees f := by
  simp only [ofProgression, barsFrom_map held root, boundariesFrom_map held root]
  rfl

end Timeline

/-! ### Slots and performances -/

theorem Slot.span?_mapDegrees (s : Slot) (t : Timeline) (length : Amount) :
    s.span? (t.mapDegrees f) length = s.span? t length := by
  cases s with
  | global => simp [span?]
  | bar i =>
    simp only [span?, Timeline.mapDegrees, List.getElem?_map, Option.map_map]
    rfl
  | chord i =>
    simp only [span?, Timeline.mapDegrees, List.getElem?_map, Option.map_map]
    rfl
  | transition i j =>
    simp only [span?, Timeline.mapDegrees, List.getElem?_map]
    cases t.boundaries[i]? with
    | none => rfl
    | some b =>
      cases t.boundaries[j]? with
      | none => rfl
      | some d => rfl
  | lastChord =>
    simp only [span?, Timeline.mapDegrees, List.getLast?_map, Option.map_map]
    rfl

theorem Engagement.make_mapDegrees (c : Catalog) (t : Timeline) : make c (t.mapDegrees f) = make c t := by
  funext a
  unfold make
  simp only [Slot.span?_mapDegrees]

def PitchContext.mapDegrees (c : PitchContext) : PitchContext :=
  { c with timeline := c.timeline.mapDegrees f }

def Performance.mapDegrees (q : Performance) : Performance := { q with context := q.context.mapDegrees f }

theorem Engagement.performances_mapDegrees (t : Timeline) (e : Engagement) :
    e.performances (t.mapDegrees f) = (e.performances t).map (Performance.mapDegrees f) := by
  unfold performances
  split
  · simp only [Timeline.mapDegrees, List.map_map]
    refine List.map_congr_left fun b _ => ?_
    have next := Timeline.nextChordIndex_mapDegrees f t b.chordIndex
    simp only [Timeline.mapDegrees] at next
    simp [Performance.mapDegrees, PitchContext.mapDegrees, Timeline.mapDegrees, next]
  · simp only [Timeline.length_boundaries_mapDegrees]
    rfl

theorem soundingContext_mapDegrees (t : Timeline) (fallback : Nat) (beat : Binary64) :
    soundingContext (t.mapDegrees f) fallback beat = (soundingContext t fallback beat).mapDegrees f := by
  simp [soundingContext, PitchContext.mapDegrees]

end Ostinato
