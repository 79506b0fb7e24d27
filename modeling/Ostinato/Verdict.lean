import Ostinato.Progression
import Ostinato.Selection

/-!
# Verdicts

Whether a selection is complete enough for a line, and what is missing.
-/

namespace Ostinato

structure Verdict where
  errors : List String
  warnings : List String
deriving DecidableEq, Repr

namespace Verdict

def isValid (v : Verdict) : Bool := v.errors.isEmpty

def addError (v : Verdict) (message : String) : Verdict := { v with errors := v.errors ++ [message] }

/-- A heading with a line for each message; nothing without messages. -/
def lines (heading : String) (messages : List String) : List String :=
  if messages.isEmpty then [] else heading :: messages.map ("    - " ++ ·)

def text (v : Verdict) : String :=
  "\n".intercalate ((if v.isValid then "VALID" else "INVALID")
    :: lines "  Errors:" v.errors ++ lines "  Warnings:" v.warnings)

end Verdict

namespace Selection

/-- What is wrong with the chart for a selection, apart from its chords. -/
def chartErrors (s : Selection) (chart : Option Chart) : List String :=
  match s.progressionId, chart with
  | some id, some c =>
    if id = "" then ["Please select a chord progression"]
    else if c.id = id then []
    else [s!"Selected progression '{id}' does not match '{c.id}'"]
  | _, _ => ["Please select a chord progression"]

def rootlessErrors (chart : Option Chart) : List String :=
  match chart with
  | some c => (rootless c.bars.val).map fun symbol => s!"Chord '{symbol}' has no recognizable root"
  | none => []

/-- The verdict on a selection and the chart that belongs to it. -/
def check (s : Selection) (chart : Option Chart) : Verdict where
  errors :=
    (if s.genre.getD "" = "" then ["Please select a genre"] else [])
      ++ (if s.level.isNone then ["Please select a level"] else [])
      ++ s.chartErrors chart
      ++ (if s.rootString.isNone then ["Please select a root string"] else [])
      ++ rootlessErrors chart
  warnings := []

end Selection

end Ostinato
