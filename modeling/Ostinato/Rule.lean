import Ostinato.Record.Codec
import Ostinato.Text.Piece

/-!
# Atomic rules

An atomic rule says one thing about single beats: what a note is, how long it lasts, or how the line
moves. Its role decides in what order it is asked, and its trigger on which beats it applies.
-/

namespace Ostinato

/-- The kind of line that a rule is for. -/
inductive PartName where
  | bass
  | lead
  | chords
deriving DecidableEq, Repr

namespace PartName

def all : List PartName := [bass, lead, chords]

def word : PartName → String
  | bass => "bass"
  | lead => "lead"
  | chords => "chords"

def codec : Codec PartName := .word .notOption all word

end PartName

/-- The role of a rule, in the order of priority. -/
inductive Role where
  | constraint
  | anchor
  | preference
  | embellishment
deriving DecidableEq, Repr

namespace Role

def all : List Role := [constraint, anchor, preference, embellishment]

def word : Role → String
  | constraint => "constraint"
  | anchor => "anchor"
  | preference => "preference"
  | embellishment => "embellishment"

def codec : Codec Role := .word .notMember all word

end Role

/-- What a rule decides. -/
inductive Aspect where
  | targetTone
  | rhythm
  | motion
deriving DecidableEq, Repr

namespace Aspect

def all : List Aspect := [targetTone, rhythm, motion]

def word : Aspect → String
  | targetTone => "targetTone"
  | rhythm => "rhythm"
  | motion => "motion"

def codec : Codec Aspect := .word .notOption all word

end Aspect

/-- When a rule applies. -/
inductive Trigger where
  | always
  | beat1
  | beat3
  | chordChange
deriving DecidableEq, Repr

namespace Trigger

def all : List Trigger := [always, beat1, beat3, chordChange]

def word : Trigger → String
  | always => "always"
  | beat1 => "beat1"
  | beat3 => "beat3"
  | chordChange => "chordChange"

/-- The change of chords may be spelled in two words. -/
def normalise : Datum → Datum
  | .text s => .text (if s = "chord change" then "chordChange" else s)
  | d => d

def codec : Codec Trigger := .after normalise (.word .notOption all word)

/-- Whether a trigger fires on a beat with a chord, after the chord of the bar before. -/
def fires (t : Trigger) (beat : Int) (chord : String) (previous : Option String) : Bool :=
  match t with
  | always => true
  | beat1 => beat == 1
  | beat3 => beat == 3
  | chordChange =>
    match previous with
    | some before => before != "" && chord != before
    | none => false

end Trigger

structure Rule where
  id : String
  part : PartName
  genreTags : List String
  minLevel : Int
  /-- The highest level; none stands for no bound. -/
  maxLevel : Option Int
  role : Role
  affects : Aspect
  trigger : Trigger
  action : String
  weight : Option Binary64
deriving DecidableEq, Repr

namespace Rule

/-- An infinite level is no bound. -/
def unbounded : Datum → Datum
  | .real (.infinity false) => .null
  | d => d

def idField : Field String := .single "id" .name
def partField : Field PartName := .single "part" PartName.codec
def genreTagsField : Field (List String) := .cased "genre_tags" "genreTags" (.tuple .text)
def minLevelField : Field Int := .cased "min_level" "minLevel" (.intAtLeast 1)
def maxLevelField : Field (Option Int) :=
  .cased "max_level" "maxLevel" (.after unbounded (.optional .int))
def roleField : Field Role := .single "role" Role.codec
def affectsField : Field Aspect := .cased "affects_slot" "affectsSlot" Aspect.codec
def triggerField : Field Trigger := .single "trigger" Trigger.codec
def actionField : Field String := .single "action" .text
def weightField : Field (Option Binary64) := .single "weight" (.optional (.realAtLeast 0))

def read (d : Datum) : Checked Rule :=
  Rule.mk <$> idField.required d <*> partField.required d <*> genreTagsField.orDefault [] d
    <*> minLevelField.orDefault 1 d <*> maxLevelField.orDefault none d <*> roleField.required d
    <*> affectsField.required d <*> triggerField.required d <*> actionField.orDefault "" d
    <*> weightField.orDefault none d

def fields (r : Rule) : List (String × Datum) :=
  [idField.entry r.id, partField.entry r.part, genreTagsField.entry r.genreTags,
    minLevelField.entry r.minLevel, maxLevelField.entry r.maxLevel, roleField.entry r.role,
    affectsField.entry r.affects, triggerField.entry r.trigger, actionField.entry r.action,
    weightField.entry r.weight]

def title : String := "Rule"

def codec : Codec Rule := .record title read fields

/-- Whether a level lies within the levels of a rule. -/
def coversLevel (r : Rule) (level : Int) : Bool :=
  decide (r.minLevel ≤ level) && match r.maxLevel with
    | some greatest => decide (level ≤ greatest)
    | none => true

def mentions (r : Rule) (phrase : String) : Bool := Text.isPiece phrase r.action

end Rule

end Ostinato
