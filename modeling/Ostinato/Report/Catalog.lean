import Ostinato.Catalog.Check
import Ostinato.Report.Slots

/-!
# Catalog listings

The charts, progressions and rules of a catalog with its problems, as lines of text and as data. Charts
and progressions may be limited to a genre.
-/

namespace Ostinato

def Chart.line (c : Chart) : String := s!"  {padded 16 c.id} " ++ " ".intercalate c.bars.val

def Chord.text (c : Chord) : String :=
  c.degree ++ c.quality.getD "" ++ "x" ++ toString c.held.val

def Progression.line (p : Progression) : String :=
  s!"  {padded 16 p.id} key {p.key}: " ++ " ".intercalate (p.chords.map Chord.text)

def Rule.line (r : Rule) : String := s!"  {r.id} ({r.role.word}, {r.part.word}): {r.action}"

def RichRule.line (r : RichRule) : String := s!"  {r.id} [{r.category.word}]: {r.description}"

namespace Catalog

/-- The charts with a genre, or all of them. -/
def chartsOf (c : Catalog) (genre : Option String) : List Chart :=
  c.charts.filter fun p => fitsGenre genre p.genreTags

/-- The progressions with a genre, or all of them. -/
def progressionsOf (c : Catalog) (genre : Option String) : List Progression :=
  c.progressions.filter fun p => fitsGenre genre p.genreTags

def listing (c : Catalog) (genre : Option String) : String :=
  "\n".intercalate (
    "Progressions (one chord per bar):" :: (c.chartsOf genre).map Chart.line
    ++ "Progressions (timeline):" :: (c.progressionsOf genre).map Progression.line
    ++ "Rules:" :: c.rules.map Rule.line
    ++ "Rich rules:" :: c.richRules.map RichRule.line
    ++ s!"Catalog check: {c.problems.length} problem(s)" :: c.problems.map fun p => "  ! " ++ p.message)

def listingData (c : Catalog) (genre : Option String) : Datum := .object [
  ("legacyProgressions", .texts ((c.chartsOf genre).map (·.id))),
  ("progressions", .texts ((c.progressionsOf genre).map (·.id))),
  ("rules", .texts (c.rules.map (·.id))),
  ("richRules", .texts (c.richRules.map (·.id))),
  ("problems", .texts (c.problems.map (·.message)))]

end Catalog

end Ostinato
