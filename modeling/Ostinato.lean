import Ostinato.AppliedRule
import Ostinato.Arrangement
import Ostinato.BassLine
import Ostinato.BindingSet
import Ostinato.Catalog.Basic
import Ostinato.Catalog.Bundled
import Ostinato.Catalog.Check
import Ostinato.Command.Outcome
import Ostinato.Command.Request
import Ostinato.Command.Switch
import Ostinato.Command.Word
import Ostinato.Datum
import Ostinato.Failure
import Ostinato.Harmony.ChordSymbol
import Ostinato.Harmony.Degree
import Ostinato.Harmony.Numeral
import Ostinato.Harmony.Pitch
import Ostinato.LeadLine
import Ostinato.Lick
import Ostinato.Main
import Ostinato.NoteEvent
import Ostinato.Number.Amount
import Ostinato.Number.Binary64
import Ostinato.Number.Decimal
import Ostinato.Number.Fault
import Ostinato.Number.Rounding
import Ostinato.Part
import Ostinato.PitchContext
import Ostinato.Progression
import Ostinato.Random.Draw
import Ostinato.Random.Twister
import Ostinato.Record.Checked
import Ostinato.Record.Codec
import Ostinato.Record.Fault
import Ostinato.Record.WrittenNumber
import Ostinato.Register
import Ostinato.Report.Arrangement
import Ostinato.Report.Catalog
import Ostinato.Report.Json
import Ostinato.Report.Lines
import Ostinato.Report.Slots
import Ostinato.RichRule
import Ostinato.Riff
import Ostinato.Rule
import Ostinato.RuleGroups
import Ostinato.Selection
import Ostinato.Session
import Ostinato.Session.Arrival
import Ostinato.Session.Folder
import Ostinato.Session.Load
import Ostinato.Setting
import Ostinato.Slot
import Ostinato.SlotSpan
import Ostinato.Text.Blank
import Ostinato.Text.Digit
import Ostinato.Text.Integer
import Ostinato.Text.Piece
import Ostinato.Text.Printable
import Ostinato.Text.Quoted
import Ostinato.Text.Utf8
import Ostinato.Timeline
import Ostinato.Verdict
import Ostinato.Walk
import Ostinato.Yaml.Cursor
import Ostinato.Yaml.Fault
import Ostinato.Yaml.Load
import Ostinato.Yaml.Node
import Ostinato.Yaml.Plain
import Ostinato.Yaml.Scalar
import Ostinato.Yaml.Scan
import Ostinato.Yaml.Token
import Ostinato.Proofs.Number.Value
import Ostinato.Proofs.Timeline.Layout
import Ostinato.Proofs.Number.Rounding
import Ostinato.Proofs.Number.Sum
import Ostinato.Proofs.StableSort
import Ostinato.Proofs.Success
import Ostinato.Proofs.Placement
import Ostinato.Proofs.Arrangement.Candidate
import Ostinato.Proofs.Arrangement.Arbitration
import Ostinato.Proofs.Arrangement.BindingOrder
import Ostinato.Proofs.Arrangement.Sounding
import Ostinato.Proofs.Arrangement.Independence
import Ostinato.Proofs.Arrangement.Undisputed
import Ostinato.Proofs.Arrangement.EqualSlots
import Ostinato.Proofs.Harmony.DegreeLabel
import Ostinato.Proofs.Number.Range
import Ostinato.Proofs.Arrangement.WalkNotes
import Ostinato.Proofs.Arrangement.Rootless
import Ostinato.Proofs.BindingSet.History
import Ostinato.Proofs.Arrangement.Omissions
import Ostinato.Proofs.Arrangement.Correspondence
import Ostinato.Proofs.Timeline.Spans
import Ostinato.Proofs.Timeline.LeadIn
import Ostinato.Proofs.Arrangement.LeadIn
import Ostinato.Proofs.Walk.Transposed
import Ostinato.Proofs.Timeline.Outline
import Ostinato.Proofs.Arrangement.Transposed
import Ostinato.Proofs.Harmony.ChordSpelling
import Ostinato.Proofs.Timeline.Chart
import Ostinato.Proofs.Random.Draw
import Ostinato.Proofs.RuleGroups
import Ostinato.Proofs.BassLine.Tones
import Ostinato.Proofs.BassLine.Conflicts
import Ostinato.Proofs.BassLine.Shape
import Ostinato.Proofs.BassLine.FirstBars
import Ostinato.Proofs.BassLine.Acceptance
import Ostinato.Proofs.Catalog.References
import Ostinato.Proofs.Walk.Motion
import Ostinato.Proofs.Record.RecordType
import Ostinato.Proofs.Arrangement.Parameters
import Ostinato.Proofs.Session.Arrival
import Ostinato.Proofs.Session.Load
import Ostinato.Proofs.Timeline.Slots
import Ostinato.Proofs.Walk.Approach
import Ostinato.Proofs.Number.Order
import Ostinato.Proofs.BassLine.Weights
import Ostinato.Proofs.Walk.Filling
import Ostinato.Proofs.BindingSet.Covering
import Ostinato.Proofs.Harmony.SymbolGrammar
import Ostinato.Proofs.Harmony.LabelGrammar
import Ostinato.Proofs.Record.Acceptance
import Ostinato.Proofs.Timeline.Usable
import Ostinato.Proofs.LeadLine.Scales
