import Ostinato.Record.Codec

/-!
# Slots

A slot is a place on the timeline that a rule can be bound to: all of it, a bar, a chord, the change
from one chord to another, or the last chord. More specific slots win over less specific ones.
-/

namespace Ostinato

inductive Slot where
  | global
  | bar (index : Nat)
  | chord (index : Nat)
  | transition (origin destination : Nat)
  | lastChord
deriving DecidableEq, Repr

namespace Slot

/-- The rank of a slot where rules compete for a beat. -/
def specificity : Slot → Nat
  | global => 0
  | bar _ => 4
  | chord _ => 3
  | transition .. => 2
  | lastChord => 1

/-! ### Record form -/

def kind : Slot → String
  | global => "global"
  | bar _ => "bar"
  | chord _ => "chord"
  | transition .. => "transition"
  | lastChord => "lastChord"

def kinds : List String := ["global", "bar", "chord", "transition", "lastChord"]

def indexField : Field Nat := .single "index" .nat
def originField : Field Nat := ⟨["from", "from_"], "from", .nat⟩
def destinationField : Field Nat := .single "to" .nat

/-- Reads a slot of a kind; none for a word that is no kind. -/
def readKind? (kind : String) (d : Datum) : Option (Checked Slot) :=
  match kind with
  | "global" => some (.ok global)
  | "bar" => some (bar <$> indexField.required d)
  | "chord" => some (chord <$> indexField.required d)
  | "transition" => some (transition <$> originField.required d <*> destinationField.required d)
  | "lastChord" => some (.ok lastChord)
  | _ => none

/-- Reads a slot by its kind; the kind is a step of the path to what is below. -/
def decode (d : Datum) : Checked Slot :=
  match d with
  | .map _ =>
    match d.get? "type" with
    | none => .fault .tagMissing d
    | some (.text kind) =>
      match readKind? kind d with
      | some slot => slot.under (.key kind)
      | none => .fault (.tagUnknown kind kinds) d
    | some tag => .fault (.tagUnknown tag.shown kinds) d
  | _ => .fault .notTagged d

def positions : Slot → List (String × Datum)
  | global => []
  | bar i => [indexField.entry i]
  | chord i => [indexField.entry i]
  | transition i j => [originField.entry i, destinationField.entry j]
  | lastChord => []

def codec : Codec Slot where
  decode := decode
  encode s := .object (("type", .text s.kind) :: s.positions)

def title : String := "tagged-union[GlobalSlot,BarSlot,ChordSlot,TransitionSlot,LastChordSlot]"

/-- The title of a slot whose kind is given from outside. -/
def kindTitle (kind : String) : String := kind.capitalize ++ "Slot"

/-- Slots of one kind, for which the word may be left out. -/
def ofKind (kind : String) : Codec Slot where
  decode
    | .map entries =>
      let word : Field String := .single "type" (.word .notOption [kind] id)
      match readKind? kind (.map entries) with
      | some slot => ((word.orDefault kind (.map entries)).map fun _ s => s).apply slot
      | none => .fault (.tagUnknown kind kinds) (.map entries)
    | d => .fault (.notRecord (kindTitle kind)) d
  encode := codec.encode

def label : Slot → String
  | global => "global"
  | bar i => s!"bar {i}"
  | chord i => s!"chord {i}"
  | transition i j => s!"transition {i}->{j}"
  | lastChord => "lastChord"

end Slot

end Ostinato
