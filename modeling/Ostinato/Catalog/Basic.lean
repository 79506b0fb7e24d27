import Ostinato.Failure
import Ostinato.Lick
import Ostinato.RichRule
import Ostinato.Rule
import Ostinato.Timeline

/-!
# Catalogs

A catalog holds everything that lines are made from. Charts, atomic rules, scales and licks are lists;
progressions, rich rules and riffs are tables with one entry for an id.
-/

namespace Ostinato

structure Catalog where
  charts : List Chart
  progressions : List Progression
  rules : List Rule
  richRules : List RichRule
  riffs : List Riff
  scales : List Scale
  licks : List Lick
deriving DecidableEq, Repr

namespace Catalog

def empty : Catalog := ⟨[], [], [], [], [], [], []⟩

/-! ### Lookup -/

def withId? {α : Type} (idOf : α → String) (table : List α) (id : String) : Option α :=
  table.find? fun a => idOf a == id

def chart? (c : Catalog) (id : String) : Option Chart := withId? Chart.id c.charts id

def progression? (c : Catalog) (id : String) : Option Progression :=
  withId? Progression.id c.progressions id

def rule? (c : Catalog) (id : String) : Option Rule := withId? Rule.id c.rules id

def richRule? (c : Catalog) (id : String) : Option RichRule := withId? RichRule.id c.richRules id

def riff? (c : Catalog) (id : String) : Option Riff := withId? Riff.id c.riffs id

/-- The riff of a rule, if it names one and the catalog has it. -/
def riffOf? (c : Catalog) (r : RichRule) : Option Riff := r.riffId.bind c.riff?

/-- The key of a progression that is made from a chart. -/
def usualKey : String := "C"

/-- The progression with an id, or the one that the chart with this id stands for. -/
def resolve? (c : Catalog) (id : String) : Except Rejection (Option Progression) :=
  match c.progression? id with
  | some p => .ok (some p)
  | none =>
    match c.chart? id with
    | some chart => (chart.toProgression usualKey).map some
    | none => .ok none

/-! ### Genres -/

/-- Whether a genre is among tags; every tag fits where no genre is asked for. -/
def fitsGenre (genre : Option String) (tags : List String) : Bool :=
  match genre with
  | some g => g == "" || tags.contains g
  | none => true

/-- All genres of some tag lists, once each, in the order of their characters. -/
def genres (tags : List (List String)) : List String :=
  tags.flatten.eraseDups.mergeSort fun a b => decide (a ≤ b)

/-! ### Rows -/

/-- Puts an entry into a table: in the place of the one with its id, or at the end. -/
def put {α : Type} (idOf : α → String) (table : List α) (entry : α) : List α :=
  if table.any fun a => idOf a == idOf entry then
    table.map fun a => if idOf a == idOf entry then entry else a
  else table ++ [entry]

/-- Untyped rows for each table. -/
structure Rows where
  charts : List Datum
  progressions : List Datum
  rules : List Datum
  richRules : List Datum
  riffs : List Datum
  scales : List Datum
  licks : List Datum

def readRow {α : Type} (codec : Codec α) (title : String) (row : Datum) : Except Failure α :=
  Failure.ofRecord ((codec.decode row).orReject title)

/-- Reads a row of a keyed table: it has to have an id, whatever else it has. -/
def readKeyedRow {α : Type} (codec : Codec α) (title : String) (row : Datum) : Except Failure α :=
  if (row.get? "id").isSome then readRow codec title row else .error .rowWithoutId

/-- A catalog with further rows. Tables are read one after another; the first fault ends the reading. -/
def extend (c : Catalog) (rows : Rows) : Except Failure Catalog := do
  let charts ← rows.charts.mapM (readRow Chart.codec Chart.title)
  let progressions ← rows.progressions.mapM (readKeyedRow Progression.codec Progression.title)
  let rules ← rows.rules.mapM (readRow Rule.codec Rule.title)
  let richRules ← rows.richRules.mapM (readKeyedRow RichRule.codec RichRule.title)
  let riffs ← rows.riffs.mapM (readKeyedRow Riff.codec Riff.title)
  let scales ← rows.scales.mapM (readRow Scale.codec Scale.title)
  let licks ← rows.licks.mapM (readRow Lick.codec Lick.title)
  return {
    charts := c.charts ++ charts
    progressions := progressions.foldl (put Progression.id) c.progressions
    rules := c.rules ++ rules
    richRules := richRules.foldl (put RichRule.id) c.richRules
    riffs := riffs.foldl (put Riff.id) c.riffs
    scales := c.scales ++ scales
    licks := c.licks ++ licks }

end Catalog

end Ostinato
