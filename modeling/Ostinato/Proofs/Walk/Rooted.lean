import Ostinato.Proofs.Timeline.Degrees
import Ostinato.Proofs.Walk.Tones

/-!
# Walks between chords without a root

The first degree can stand for a degree that is no label: every pitch is the same. A walk to or from such
a chord leads over the same tones, and only the anchors themselves are given by other texts.
-/

namespace Ostinato

open Success

/-! ### Degrees in place of symbols -/

/-- A label as it is, and the first degree for any other text. -/
def rootedDegree (s : String) : String := if isDegreeLabel s then s else "I"

theorem rootedDegree_of_label {s : String} (h : isDegreeLabel s = true) : rootedDegree s = s := if_pos h

theorem rootedDegree_of_not_label {s : String} (h : isDegreeLabel s = false) : rootedDegree s = "I" := by
  simp [rootedDegree, h]

theorem rootedDegree_degree (p : PitchClass) : rootedDegree p.degree = p.degree :=
  rootedDegree_of_label (isDegreeLabel_degree p)

theorem degreePitch_rootedDegree (s : String) : degreePitch (rootedDegree s) = degreePitch s := by
  cases h : isDegreeLabel s with
  | true => rw [rootedDegree_of_label h]
  | false =>
    rw [rootedDegree_of_not_label h, degreePitch_of_not_label h]
    rfl

/-- The chord, built on the first degree if it has no root. -/
def Chord.rooted (c : Chord) : Chord := if isDegreeLabel c.root then c else { c with degree := "I" }

theorem Chord.held_rooted (c : Chord) : c.rooted.held = c.held := by
  unfold rooted
  split <;> rfl

theorem Chord.root_rooted (c : Chord) : c.rooted.root = rootedDegree c.root := by
  unfold rooted
  split
  · rename_i label
    rw [rootedDegree_of_label label]
  · rename_i not_label
    rw [rootedDegree_of_not_label (Bool.eq_false_iff.mpr not_label)]
    change chordDegree "I" = "I"
    decide +kernel

def Progression.rooted (p : Progression) : Progression := { p with chords := p.chords.map Chord.rooted }

theorem Timeline.ofProgression_rooted (p : Progression) :
    ofProgression p.rooted = (ofProgression p).mapDegrees rootedDegree :=
  ofProgression_map Chord.held_rooted Chord.root_rooted p

/-! ### Pitches -/

theorem PitchContext.chordPitch?_rooted (context : PitchContext) (i : Int) :
    (context.mapDegrees rootedDegree).chordPitch? i = context.chordPitch? i := by
  simp only [chordPitch?, mapDegrees, Timeline.chordDegree?_mapDegrees]
  cases context.timeline.chordDegree? i with
  | none => rfl
  | some degree => simp only [Option.map_some, degreePitch_rootedDegree]

/-- A reference has the same pitch, whatever its hint is. -/
theorem PitchRef.resolve_rooted (r : PitchRef) (context : PitchContext) :
    r.resolve (context.mapDegrees rootedDegree) = r.resolve context := by
  have hinted (i : Int) : hintedPitch? r.degreeHint (context.mapDegrees rootedDegree) i =
      hintedPitch? r.degreeHint context i := by
    simp only [hintedPitch?, PitchContext.chordPitch?_rooted]
  have current : (context.mapDegrees rootedDegree).currentChord = context.currentChord := rfl
  have next : (context.mapDegrees rootedDegree).nextChord = context.nextChord := rfl
  simp only [resolve, base, hinted, current, next, PitchContext.chordPitch?_rooted]

/-! ### Walks -/

theorem anchorDegree_rooted (t : Timeline) (i : Int) :
    anchorDegree (t.mapDegrees rootedDegree) i = rootedDegree (anchorDegree t i) := by
  have kept : rootedDegree "I" = "I" := by decide +kernel
  simp only [anchorDegree, Timeline.chordDegree?_mapDegrees]
  cases t.chordDegree? i with
  | none => exact kept.symm
  | some degree =>
    by_cases empty : degree = ""
    · subst empty
      decide +kernel
    · have given : rootedDegree degree ≠ "" := by
        unfold rootedDegree
        split
        · exact empty
        · decide
      simp only [Option.map_some, given, empty, if_false]

theorem WalkParameters.leading_rooted (p : WalkParameters) (start target : String) :
    p.leading (rootedDegree start) (rootedDegree target) = p.leading start target := by
  simp only [leading, chooseDirection, degreePitch_rootedDegree]

theorem walkSteps_rooted (start target : String) (steps : Int) (d : Direction) (snaps : Bool) :
    walkSteps (rootedDegree start) (rootedDegree target) steps d snaps =
      walkSteps start target steps d snaps := by
  simp only [walkSteps, degreePitch_rootedDegree]

namespace WalkPlan

variable {r : RichRule} {p : WalkParameters} {context : PitchContext} {w : WalkPlan}

def rooted (w : WalkPlan) : WalkPlan :=
  { w with start := rootedDegree w.start, target := rootedDegree w.target }

theorem make_rooted (r : RichRule) (p : WalkParameters) (context : PitchContext) :
    make r p (context.mapDegrees rootedDegree) = (make r p context).map rooted := by
  have target : p.targetChord (context.mapDegrees rootedDegree) = p.targetChord context := rfl
  have start : (context.mapDegrees rootedDegree).currentChord = context.currentChord := rfl
  have timeline : (context.mapDegrees rootedDegree).timeline = context.timeline.mapDegrees rootedDegree := rfl
  simp only [make_eq, target, start, timeline, anchorDegree_rooted, WalkParameters.leading_rooted,
    walkSteps_rooted]
  cases p.leading (anchorDegree context.timeline context.currentChord)
      (anchorDegree context.timeline (p.targetChord context)) with
  | error f => rfl
  | ok d =>
    simp only [bind, Except.bind]
    cases walkSteps (anchorDegree context.timeline context.currentChord)
        (anchorDegree context.timeline (p.targetChord context)) p.steps.val d
        (staysInScale (r.walkProfile p.genreProfile) (p.approach == .chromatic)) with
    | error f => rfl
    | ok notes => rfl

/-- The tones between the anchors are labels already. -/
theorem degree_rooted (h : make r p context = .ok w) (e : TemplateEvent) :
    w.rooted.degree e = (w.degree e).map rootedDegree := by
  obtain ⟨-, -, -, notes⟩ := make_spec h
  unfold degree
  split
  · rfl
  · rfl
  · simp only [approachTone, rooted, degreePitch_rootedDegree]
    cases degreePitch w.target with
    | error f => rfl
    | ok q => exact congrArg Except.ok (rootedDegree_degree _).symm
  · dsimp only [rooted]
    split
    · rename_i note hnote
      unfold itemAt? at hnote
      split_ifs at hnote
      obtain ⟨q, rfl⟩ := notes _ (List.mem_of_getElem? hnote)
      exact congrArg Except.ok (rootedDegree_degree q).symm
    · simp only [interpolateStep, degreePitch_rootedDegree]
      cases degreePitch w.start with
      | error f => rfl
      | ok a =>
        cases degreePitch w.target with
        | error f => rfl
        | ok b =>
          change (interpolatedPitch a b _ _ >>= fun q => pure q.degree) =
            (interpolatedPitch a b _ _ >>= fun q => pure q.degree).map rootedDegree
          cases interpolatedPitch a b (e.stepIndex.getD 1 - 1) w.steps with
          | error f => rfl
          | ok q => exact congrArg Except.ok (rootedDegree_degree q).symm

end WalkPlan

/-! ### Events of walks -/

def PitchRef.rooted (r : PitchRef) : PitchRef := { r with degreeHint := r.degreeHint.map rootedDegree }

def RiffEvent.rooted (e : RiffEvent) : RiffEvent := { e with pitchRef := e.pitchRef.rooted }

def PlacedEvent.rooted (e : PlacedEvent) : PlacedEvent := { e with pitchRef := e.pitchRef.rooted }

theorem WalkPlan.event_rooted {r : RichRule} {p : WalkParameters} {context : PitchContext} {w : WalkPlan}
    (h : make r p context = .ok w) (e : TemplateEvent) :
    w.rooted.event e = (w.event e).map RiffEvent.rooted := by
  unfold WalkPlan.event
  rw [degree_rooted h]
  cases w.degree e with
  | error f => rfl
  | ok s =>
    cases (((Codec.realFrom 1).decode (.int (beatOf e))).under (.key "start_beat")).orReject
        RiffEvent.title with
    | error f => rfl
    | ok x => rfl

theorem RichRule.events_walkRiff_rooted (r : RichRule) (p : WalkParameters) (context : PitchContext) :
    (r.walkRiff p (context.mapDegrees rootedDegree)).map Riff.events =
      (r.walkRiff p context).map fun riff => riff.events.map RiffEvent.rooted := by
  unfold walkRiff
  rw [WalkPlan.make_rooted]
  cases hw : WalkPlan.make r p context with
  | error f => rfl
  | ok w =>
    have events : r.templateEvents.mapM w.rooted.event =
        (r.templateEvents.mapM w.event).map (List.map RiffEvent.rooted) := by
      rw [map_mapM]
      exact mapM_congr fun e _ => WalkPlan.event_rooted hw e
    simp only [Except.map, Failure.ofNumber_ok, bind, Except.bind]
    rw [events]
    cases r.templateEvents.mapM w.event with
    | error f => rfl
    | ok events =>
      cases (((Codec.realAbove 0).decode (.int r.walkLength)).under (.key "length_beats")).orReject
          Riff.title with
      | error f => rfl
      | ok length => rfl

theorem RiffEvent.place_rooted (e : RiffEvent) (start : Amount) :
    e.rooted.place start = (e.place start).map PlacedEvent.rooted := by
  unfold place
  cases start.toReal with
  | error f => rfl
  | ok first => rfl

theorem RiffEvent.mapM_place_rooted (events : List RiffEvent) (start : Amount) :
    (events.map rooted).mapM (fun e => RiffEvent.place e start) =
      (events.mapM fun e => RiffEvent.place e start).map (List.map PlacedEvent.rooted) := by
  rw [List.mapM_map, map_mapM]
  exact mapM_congr fun e _ => e.place_rooted start

end Ostinato
