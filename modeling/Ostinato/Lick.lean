import Ostinato.Record.Codec

/-!
# Scales and licks

The material that lead lines are made of: named scales, and short figures for a genre and a level.
-/

namespace Ostinato

structure Scale where
  id : String
  degrees : List String
deriving DecidableEq, Repr

namespace Scale

def idField : Field String := .single "id" .text
def degreesField : Field (List String) := .single "degrees" (.tuple .text)

def read (d : Datum) : Checked Scale := Scale.mk <$> idField.required d <*> degreesField.required d

def fields (s : Scale) : List (String × Datum) := [idField.entry s.id, degreesField.entry s.degrees]

def title : String := "Scale"

def codec : Codec Scale := .record title read fields

/-- The name of a scale in the action of a rule: hyphens are spoken as spaces. -/
def spokenName (s : Scale) : String := s.id.map fun c => if c = '-' then ' ' else c

end Scale

structure LickNote where
  degree : String
  octaveOffset : Int
  duration : Binary64
deriving DecidableEq, Repr

namespace LickNote

def degreeField : Field String := .single "degree" .text
def octaveOffsetField : Field Int := .cased "octave_offset" "octaveOffset" .int
def durationField : Field Binary64 := .single "duration" (.realMoreThan 0)

def read (d : Datum) : Checked LickNote :=
  LickNote.mk <$> degreeField.required d <*> octaveOffsetField.orDefault 0 d <*> durationField.required d

def fields (n : LickNote) : List (String × Datum) :=
  [degreeField.entry n.degree, octaveOffsetField.entry n.octaveOffset, durationField.entry n.duration]

def title : String := "LickNote"

def codec : Codec LickNote := .record title read fields

end LickNote

structure Lick where
  id : String
  genreTags : List String
  level : Int
  notes : List LickNote
  explanation : String
deriving DecidableEq, Repr

namespace Lick

def idField : Field String := .single "id" .text
def genreTagsField : Field (List String) := .cased "genre_tags" "genreTags" (.tuple .text)
def levelField : Field Int := .single "level" (.intAtLeast 1)
def notesField : Field (List LickNote) := .single "notes" (.tuple LickNote.codec)
def explanationField : Field String := .single "explanation" .text

def read (d : Datum) : Checked Lick :=
  Lick.mk <$> idField.required d <*> genreTagsField.orDefault [] d <*> levelField.required d
    <*> notesField.orDefault [] d <*> explanationField.orDefault "" d

def fields (l : Lick) : List (String × Datum) :=
  [idField.entry l.id, genreTagsField.entry l.genreTags, levelField.entry l.level,
    notesField.entry l.notes, explanationField.entry l.explanation]

def title : String := "Lick"

def codec : Codec Lick := .record title read fields

end Lick

end Ostinato
