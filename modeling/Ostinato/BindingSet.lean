import Ostinato.AppliedRule
import Ostinato.Timeline

/-!
# Binding sets

The rules that are bound, at most one for a slot and a part, in the order in which they were bound.
-/

namespace Ostinato

structure BindingSet where
  bindings : List AppliedRule
deriving DecidableEq, Repr

namespace BindingSet

def empty : BindingSet := ⟨[]⟩

def find? (s : BindingSet) (slot : Slot) (partId : Option String) : Option AppliedRule :=
  s.bindings.find? fun a => a.key == (slot, partId)

/-- Takes the first rule with a key out of a list: the rule, and the others. -/
def takeKey (key : Slot × Option String) : List AppliedRule → Option AppliedRule × List AppliedRule
  | [] => (none, [])
  | a :: rest =>
    if a.key = key then (some a, rest)
    else
      let (taken, others) := takeKey key rest
      (taken, a :: others)

/-- Takes back what is bound to a slot for a part: it, and the set without it. -/
def unbind (s : BindingSet) (slot : Slot) (partId : Option String) : Option AppliedRule × BindingSet :=
  let (taken, others) := takeKey (slot, partId) s.bindings
  (taken, ⟨others⟩)

/-- Binds a rule after all others: what was bound in its place, and the set with the rule. -/
def bind (s : BindingSet) (a : AppliedRule) : Option AppliedRule × BindingSet :=
  let (replaced, others) := s.unbind a.slot a.partId
  (replaced, ⟨others.bindings ++ [a]⟩)

/-- The set that results from binding rules one after another. -/
def ofList (rules : List AppliedRule) : BindingSet := rules.foldl (fun s a => (s.bind a).2) empty

def toList (s : BindingSet) : List AppliedRule := s.bindings

def size (s : BindingSet) : Nat := s.bindings.length

/-- Drops all rules that a part owns: how many there were, and the set without them. -/
def removePart (s : BindingSet) (partId : Option String) : Nat × BindingSet :=
  let kept : BindingSet := ⟨s.bindings.filter fun a => a.partId != partId⟩
  (s.size - kept.size, kept)

/-- The rules that apply to a part, those for every part included. -/
def forPart (s : BindingSet) (partId : Option String) : List AppliedRule :=
  s.bindings.filter fun a => a.partId == none || a.partId == partId

/-- The rule at a slot for a part, or else the one for every part. -/
def findFor? (s : BindingSet) (partId : Option String) (slot : Slot) : Option AppliedRule :=
  (s.find? slot partId).or (s.find? slot none)

/-- The most specific rule that covers a bar for a part: on the bar, on its chord, or on everything. -/
def covering? (s : BindingSet) (t : Timeline) (bar : Int) (partId : Option String) : Option AppliedRule :=
  match itemAt? t.bars bar with
  | none => none
  | some b => [Slot.bar bar.toNat, .chord b.chordIndex, .global].findSome? (s.findFor? partId)

end BindingSet

end Ostinato
