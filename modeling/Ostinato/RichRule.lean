import Ostinato.Riff
import Ostinato.Setting

/-!
# Rich rules

A rich rule says what is played at a slot: a riff of the catalog, or a walk that is worked out for the
chords at hand from parameters, genre profiles and a template.
-/

namespace Ostinato

/-! ### Parameters -/

inductive ParameterKind where
  | choice
  | integer
deriving DecidableEq, Repr

namespace ParameterKind

def all : List ParameterKind := [choice, integer]

def word : ParameterKind → String
  | choice => "enum"
  | integer => "integer"

def codec : Codec ParameterKind := .word .notOption all word

end ParameterKind

/-- What values a parameter takes, and its default. -/
structure ParameterSpec where
  kind : ParameterKind
  values : Option (List String)
  least : Option Int
  greatest : Option Int
  default : Setting
  description : String
deriving DecidableEq, Repr

namespace ParameterSpec

def kindField : Field ParameterKind := .single "type" ParameterKind.codec
def valuesField : Field (Option (List String)) := .single "values" (.optional (.tuple .text))
def leastField : Field (Option Int) := .single "min" (.optional .int)
def greatestField : Field (Option Int) := .single "max" (.optional .int)
def defaultField : Field Setting := .single "default" Setting.codec
def descriptionField : Field String := .single "description" .text

def read (d : Datum) : Checked ParameterSpec :=
  ParameterSpec.mk <$> kindField.required d <*> valuesField.orDefault none d
    <*> leastField.orDefault none d <*> greatestField.orDefault none d <*> defaultField.required d
    <*> descriptionField.orDefault "" d

def fields (s : ParameterSpec) : List (String × Datum) :=
  [kindField.entry s.kind, valuesField.entry s.values, leastField.entry s.least,
    greatestField.entry s.greatest, defaultField.entry s.default,
    descriptionField.entry s.description]

def title : String := "ParameterSpec"

def codec : Codec ParameterSpec := .record title read fields

/-- Whether a number is at least a bound, if there is one. -/
def reaches (least : Option Int) (n : Int) : Bool :=
  match least with
  | some bound => decide (bound ≤ n)
  | none => true

/-- Whether a number is at most a bound, if there is one. -/
def within (greatest : Option Int) (n : Int) : Bool :=
  match greatest with
  | some bound => decide (n ≤ bound)
  | none => true

/-- Whether a value is used as it is: a text among the choices, or an integer within the bounds. -/
def accepts (s : ParameterSpec) (value : Datum) : Bool :=
  match s.kind, value with
  | .choice, .text v => (s.values.getD []).contains v
  | .integer, .int n => reaches s.least n && within s.greatest n
  | _, _ => false

end ParameterSpec

/-! ### Walks -/

/-- How a walk comes to its tones. -/
inductive Approach where
  | chromatic
  | diatonic
  | mixed
deriving DecidableEq, Repr

namespace Approach

def all : List Approach := [chromatic, diatonic, mixed]

def word : Approach → String
  | chromatic => "chromatic"
  | diatonic => "diatonic"
  | mixed => "mixed"

def codec : Codec Approach := .word .notOption all word

end Approach

structure GenreProfile where
  preferredApproach : Approach
  description : String
deriving DecidableEq, Repr

namespace GenreProfile

def approachField : Field Approach := .cased "preferred_approach" "preferredApproach" Approach.codec
def descriptionField : Field String := .single "description" .text

def read (d : Datum) : Checked GenreProfile :=
  GenreProfile.mk <$> approachField.orDefault .mixed d <*> descriptionField.orDefault "" d

def fields (p : GenreProfile) : List (String × Datum) :=
  [approachField.entry p.preferredApproach, descriptionField.entry p.description]

def title : String := "GenreProfile"

def codec : Codec GenreProfile := .record title read fields

/-- The profile of a walk for which none is defined. -/
def unbiased : GenreProfile := ⟨.mixed, ""⟩

end GenreProfile

/-- What a template event plays. -/
inductive TemplateRole where
  | startAnchor
  | walkStep
  | approachTone
  | targetAnchor
deriving DecidableEq, Repr

namespace TemplateRole

def all : List TemplateRole := [startAnchor, walkStep, approachTone, targetAnchor]

def word : TemplateRole → String
  | startAnchor => "startAnchor"
  | walkStep => "walkStep"
  | approachTone => "approachTone"
  | targetAnchor => "targetAnchor"

def codec : Codec TemplateRole := .word .notOption all word

end TemplateRole

/-- A beat of a bar. -/
abbrev BeatInBar := { n : Int // 1 ≤ n ∧ n ≤ 4 }

structure TemplateEvent where
  beat : BeatInBar
  barOffset : Nat
  role : TemplateRole
  /-- The walk step that is played, counted from one. -/
  stepIndex : Option Int
  noteSource : Option String
deriving DecidableEq, Repr

namespace TemplateEvent

def beatField : Field BeatInBar := .single "beat" (.intBetween 1 4)
def barOffsetField : Field Nat := .cased "bar_offset" "barOffset" .nat
def roleField : Field TemplateRole := .single "role" TemplateRole.codec
def stepIndexField : Field (Option Int) := .cased "step_index" "stepIndex" (.optional (.intAtLeast 1))
def noteSourceField : Field (Option String) := .cased "note_source" "noteSource" (.optional .text)

def read (d : Datum) : Checked TemplateEvent :=
  TemplateEvent.mk <$> beatField.required d <*> barOffsetField.orDefault 0 d <*> roleField.required d
    <*> stepIndexField.orDefault none d <*> noteSourceField.orDefault none d

def fields (e : TemplateEvent) : List (String × Datum) :=
  [beatField.entry e.beat, barOffsetField.entry e.barOffset, roleField.entry e.role,
    stepIndexField.entry e.stepIndex, noteSourceField.entry e.noteSource]

def title : String := "TemplateEvent"

def codec : Codec TemplateEvent := .record title read fields

end TemplateEvent

/-- The beats of a walk. -/
structure WalkTemplate where
  length : { n : Int // 0 < n }
  events : List TemplateEvent
deriving DecidableEq, Repr

namespace WalkTemplate

def lengthField : Field { n : Int // 0 < n } := .cased "length_beats" "lengthBeats" (.intAbove 0)
def eventsField : Field (List TemplateEvent) := .single "events" (.tuple TemplateEvent.codec)

def read (d : Datum) : Checked WalkTemplate :=
  WalkTemplate.mk <$> lengthField.required d <*> eventsField.orDefault [] d

def fields (t : WalkTemplate) : List (String × Datum) :=
  [lengthField.entry t.length, eventsField.entry t.events]

def title : String := "TimelineTemplate"

def codec : Codec WalkTemplate := .record title read fields

end WalkTemplate

/-! ### Rules -/

inductive RuleCategory where
  | normal
  | walk
deriving DecidableEq, Repr

namespace RuleCategory

def all : List RuleCategory := [normal, walk]

def word : RuleCategory → String
  | normal => "normal"
  | walk => "walk"

def codec : Codec RuleCategory := .word .notOption all word

end RuleCategory

structure RichRule where
  id : String
  name : String
  description : String
  riffId : Option String
  category : RuleCategory
  tags : List String
  defaultRegister : Option String
  parameters : List (String × ParameterSpec)
  genreProfiles : List (String × GenreProfile)
  template : Option WalkTemplate
  resolutionRules : List String
deriving DecidableEq, Repr

namespace RichRule

def idField : Field String := .single "id" .name
def nameField : Field String := .single "name" .text
def descriptionField : Field String := .single "description" .text
def riffIdField : Field (Option String) := .cased "riff_id" "riffId" (.optional .text)
def categoryField : Field RuleCategory := .single "category" RuleCategory.codec
def tagsField : Field (List String) := .single "tags" (.tuple .text)
def registerField : Field (Option String) :=
  .cased "default_register" "defaultRegister" (.optional .text)
def parametersField : Field (List (String × ParameterSpec)) :=
  .single "parameters" (.mapOf ParameterSpec.codec)
def genreProfilesField : Field (List (String × GenreProfile)) :=
  .cased "genre_profiles" "genreProfiles" (.mapOf GenreProfile.codec)
def templateField : Field (Option WalkTemplate) :=
  .cased "timeline_template" "timelineTemplate" (.optional WalkTemplate.codec)
def resolutionRulesField : Field (List String) :=
  .cased "resolution_rules" "resolutionRules" (.tuple .text)

def read (d : Datum) : Checked RichRule :=
  RichRule.mk <$> idField.required d <*> nameField.orDefault "" d <*> descriptionField.orDefault "" d
    <*> riffIdField.orDefault none d <*> categoryField.orDefault .normal d <*> tagsField.orDefault [] d
    <*> registerField.orDefault none d <*> parametersField.orDefault [] d
    <*> genreProfilesField.orDefault [] d <*> templateField.orDefault none d
    <*> resolutionRulesField.orDefault [] d

def fields (r : RichRule) : List (String × Datum) :=
  [idField.entry r.id, nameField.entry r.name, descriptionField.entry r.description,
    riffIdField.entry r.riffId, categoryField.entry r.category, tagsField.entry r.tags,
    registerField.entry r.defaultRegister, parametersField.entry r.parameters,
    genreProfilesField.entry r.genreProfiles, templateField.entry r.template,
    resolutionRulesField.entry r.resolutionRules]

def title : String := "RichRule"

def codec : Codec RichRule := .record title read fields

def isWalk (r : RichRule) : Bool := r.category == .walk

/-- The profile of a genre, if the rule defines one. -/
def profile? (r : RichRule) (genre : String) : Option GenreProfile :=
  (r.genreProfiles.find? fun p => p.1 == genre).map (·.2)

end RichRule

end Ostinato
