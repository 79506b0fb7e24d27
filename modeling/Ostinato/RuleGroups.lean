import Ostinato.Rule
import Ostinato.Selection

/-!
# Rule groups

The rules that apply to a selection, in groups by role, and the anchors that compete with each other.
Of competing anchors the first one wins.
-/

namespace Ostinato

/-! ### Active rules -/

/-- Whether a rule applies to a selection: by part, genre and level. -/
def Rule.appliesTo (r : Rule) (s : Selection) (level : Int) : Bool :=
  r.part == s.part && (match s.genre with
    | some genre => r.genreTags.contains genre
    | none => false) && r.coversLevel level

/-- The rules that apply to a selection, in their order. -/
def Selection.activeRules (s : Selection) (rules : List Rule) : List Rule :=
  match s.level with
  | some level => rules.filter fun r => r.appliesTo s level
  | none => []

/-! ### Conflicts -/

/-- Two anchors with one trigger that decide the same thing. -/
structure AnchorConflict where
  kept : Rule
  shadowed : Rule
deriving DecidableEq, Repr

namespace AnchorConflict

/-- The trigger and the aspect that both anchors are for. -/
def place (r : Rule) : String := r.trigger.word ++ ":" ++ r.affects.word

def warning (c : AnchorConflict) : String :=
  s!"Anchor rules '{c.kept.id}' and '{c.shadowed.id}' both target '{place c.shadowed}'; '{c.kept.id}' wins"

/-- The conflicts of anchors after others: each one with the first anchor of its place. -/
def after (seen : List Rule) : List Rule → List AnchorConflict
  | [] => []
  | r :: rest =>
    match seen.find? fun earlier => earlier.trigger == r.trigger && earlier.affects == r.affects with
    | some kept => ⟨kept, r⟩ :: after seen rest
    | none => after (seen ++ [r]) rest

end AnchorConflict

/-! ### Groups -/

structure RuleGroups where
  constraints : List Rule
  anchors : List Rule
  preferences : List Rule
  embellishments : List Rule
  conflicts : List AnchorConflict
deriving DecidableEq, Repr

namespace RuleGroups

def ofRole (role : Role) (rules : List Rule) : List Rule := rules.filter fun r => r.role == role

/-- Groups rules by role; competing anchors all stay. -/
def make (rules : List Rule) : RuleGroups where
  constraints := ofRole .constraint rules
  anchors := ofRole .anchor rules
  preferences := ofRole .preference rules
  embellishments := ofRole .embellishment rules
  conflicts := AnchorConflict.after [] (ofRole .anchor rules)

def all (g : RuleGroups) : List Rule := g.constraints ++ g.anchors ++ g.preferences ++ g.embellishments

def isEmpty (g : RuleGroups) : Bool := g.all.isEmpty

def firing (g : RuleGroups) (beat : Int) (chord : String) (previous : Option String) : RuleGroups :=
  let fires (r : Rule) : Bool := r.trigger.fires beat chord previous
  ⟨g.constraints.filter fires, g.anchors.filter fires, g.preferences.filter fires,
    g.embellishments.filter fires, []⟩

end RuleGroups

end Ostinato
