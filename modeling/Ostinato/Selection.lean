import Ostinato.Rule

/-!
# Selections

The choices of a user. What has not been chosen yet is left open and told when a line is asked for.
-/

namespace Ostinato

structure Selection where
  genre : Option String
  level : Option Int
  progressionId : Option String
  rootString : Option Int
  /-- The chance, in percent, that a preferred tone is picked evenly. -/
  randomness : Int
  part : PartName
deriving DecidableEq, Repr

namespace Selection

def genreField : Field (Option String) := .single "genre" (.optional .text)
def levelField : Field (Option Int) := .single "level" (.optional (.intAtLeast 1))
def progressionIdField : Field (Option String) :=
  .cased "progression_id" "progressionId" (.optional .text)
def rootStringField : Field (Option Int) :=
  .cased "root_string" "rootString" (.optional (.intWithin 1 6))
def randomnessField : Field Int := .single "randomness" (.intWithin 0 100)
def partField : Field PartName := .single "part" PartName.codec

def read (d : Datum) : Checked Selection :=
  Selection.mk <$> genreField.orDefault none d <*> levelField.orDefault none d
    <*> progressionIdField.orDefault none d <*> rootStringField.orDefault none d
    <*> randomnessField.orDefault 50 d <*> partField.orDefault .bass d

def fields (s : Selection) : List (String × Datum) :=
  [genreField.entry s.genre, levelField.entry s.level, progressionIdField.entry s.progressionId,
    rootStringField.entry s.rootString, randomnessField.entry s.randomness, partField.entry s.part]

def title : String := "Selection"

def codec : Codec Selection := .record title read fields

def blank : Selection := ⟨none, none, none, none, 50, .bass⟩

end Selection

end Ostinato
