import Ostinato.SlotSpan

/-!
# Slot listings

One line for each slot, with its specificity and its beats.
-/

namespace Ostinato

def padded (width : Nat) (s : String) : String :=
  s ++ String.ofList (List.replicate (width - s.length) ' ')

/-- The beats of a slot; a transition is given as long as a bar. -/
def Slot.beatsText (s : Slot) (t : Timeline) : String :=
  match s.span? t usualLength with
  | .ok (some span) => s!"beats {span.startBeat}-{span.endBeat}"
  | _ => "outside timeline"

def Slot.line (s : Slot) (t : Timeline) : String :=
  s!"  {padded 18 s.label} specificity {s.specificity}  {s.beatsText t}"

namespace Timeline

def slotReport (t : Timeline) : String :=
  "\n".intercalate ("Rule slots:" :: t.slots.map fun s => s.line t)

def slotData (t : Timeline) : Datum := .list (t.slots.map Slot.codec.encode)

end Timeline

end Ostinato
