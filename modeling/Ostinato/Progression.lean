import Ostinato.Harmony.ChordSymbol
import Ostinato.Record.Codec

/-!
# Progressions

A progression is a row of chords, each held for some bars. A chart is the simple form with one chord
symbol for each bar; it becomes a progression by joining equal neighbours.
-/

namespace Ostinato

/-- A number of at least one. -/
abbrev Count := { n : Nat // 1 ≤ n }

def Count.one : Count := ⟨1, Nat.le_refl 1⟩

/-- One chord of a progression. -/
structure Chord where
  degree : String
  quality : Option String
  /-- The number of bars that the chord lasts. -/
  held : Count
deriving DecidableEq, Repr

namespace Chord

def degreeField : Field String := .single "degree" .name
def qualityField : Field (Option String) := .single "quality" (.optional .text)
def heldField : Field Count := ⟨["bars_held", "barsHeld", "bars"], "barsHeld", .natFrom 1⟩

def read (d : Datum) : Checked Chord :=
  Chord.mk <$> degreeField.required d <*> qualityField.orDefault none d
    <*> heldField.orDefault Count.one d

def fields (c : Chord) : List (String × Datum) :=
  [degreeField.entry c.degree, qualityField.entry c.quality, heldField.entry c.held]

def title : String := "ChordEntry"

def codec : Codec Chord := .record title read fields

/-- The degree that the chord is placed on the timeline with. -/
def root (c : Chord) : String := chordDegree c.degree

/-- The chord, held for one more bar. -/
def holdLonger (c : Chord) : Chord := { c with held := ⟨c.held.val + 1, Nat.le_add_left 1 _⟩ }

end Chord

structure Progression where
  id : String
  key : String
  chords : List Chord
  genreTags : List String
  description : String
deriving DecidableEq, Repr

namespace Progression

def idField : Field String := .single "id" .name
def keyField : Field String := .single "key" .text
def chordsField : Field (List Chord) := .single "chords" (.tuple Chord.codec)
def genreTagsField : Field (List String) := .cased "genre_tags" "genreTags" (.tuple .text)
def descriptionField : Field String := .single "description" .text

def read (d : Datum) : Checked Progression :=
  Progression.mk <$> idField.required d <*> keyField.orDefault "C" d <*> chordsField.orDefault [] d
    <*> genreTagsField.orDefault [] d <*> descriptionField.orDefault "" d

def fields (p : Progression) : List (String × Datum) :=
  [idField.entry p.id, keyField.entry p.key, chordsField.entry p.chords,
    genreTagsField.entry p.genreTags, descriptionField.entry p.description]

def title : String := "Progression"

def codec : Codec Progression := .record title read fields

def totalBars (p : Progression) : Nat := (p.chords.map (·.held.val)).foldr (· + ·) 0

end Progression

/-! ### Charts -/

/-- One chord symbol for each bar, and at least one bar. -/
structure Chart where
  id : String
  genreTags : List String
  bars : { symbols : List String // symbols ≠ [] }
  description : String
deriving DecidableEq, Repr

namespace Chart

def idField : Field String := .single "id" .name
def genreTagsField : Field (List String) := .cased "genre_tags" "genreTags" (.tuple .text)
def barsField : Field { symbols : List String // symbols ≠ [] } := .single "bars" (.tupleOfSome .text)
def descriptionField : Field String := .single "description" .text

def read (d : Datum) : Checked Chart :=
  Chart.mk <$> idField.required d <*> genreTagsField.orDefault [] d <*> barsField.required d
    <*> descriptionField.orDefault "" d

def fields (c : Chart) : List (String × Datum) :=
  [idField.entry c.id, genreTagsField.entry c.genreTags, barsField.entry c.bars,
    descriptionField.entry c.description]

def title : String := "LegacyProgression"

def codec : Codec Chart := .record title read fields

/-- The chord of one bar: degree and quality of its symbol, or the symbol itself as the degree. -/
def chordOf (symbol : String) : Except Rejection Chord :=
  match ChordSymbol.read? symbol with
  | some c => .ok ⟨c.degree, if c.quality = "" then none else some c.quality, Count.one⟩
  | none =>
    (((Codec.name.decode (.text symbol)).under (.key "degree")).map fun degree =>
      (⟨degree, none, Count.one⟩ : Chord)).orReject Chord.title

/-- The chords of further bars, after a chord that is held and the symbol it was written with. -/
def chordsAfter (symbol : String) (chord : Chord) : List String → Except Rejection (List Chord)
  | [] => .ok [chord]
  | next :: rest =>
    if next = symbol then chordsAfter symbol chord.holdLonger rest
    else do
      let following ← chordOf next
      return chord :: (← chordsAfter next following rest)

/-- The chords of a row of bars: a run of one symbol is one chord. -/
def chords : List String → Except Rejection (List Chord)
  | [] => .ok []
  | symbol :: rest => do chordsAfter symbol (← chordOf symbol) rest

def toProgression (c : Chart) (key : String) : Except Rejection Progression := do
  return ⟨c.id, key, ← chords c.bars.val, c.genreTags, c.description⟩

end Chart

end Ostinato
