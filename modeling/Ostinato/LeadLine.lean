import Ostinato.Lick
import Ostinato.RuleGroups
import Ostinato.Verdict

/-!
# Lead lines

What a lead line is made from: the lead rules for a selection, the licks for its genre and level, and
the scales that constraints name.
-/

namespace Ostinato

/-- The licks for a genre that are written for exactly a level. -/
def applicableLicks (licks : List Lick) (genre : Option String) (level : Option Int) : List Lick :=
  licks.filter fun l => (match genre with
    | some g => l.genreTags.contains g
    | none => false) && level == some l.level

/-- Whether a constraint among the rules names a scale. -/
def namedByConstraint (rules : List Rule) (s : Scale) : Bool :=
  (RuleGroups.ofRole .constraint rules).any fun r => r.mentions s.spokenName

/-- The scales that constraints name. A name inside a longer one that is named too does not count. -/
def scalesForRules (rules : List Rule) (scales : List Scale) : List Scale :=
  let named := scales.filter (namedByConstraint rules)
  named.filter fun s => !named.any fun other =>
    s.spokenName != other.spokenName && Text.isPiece s.spokenName other.spokenName

structure LeadLine where
  rules : List Rule
  licks : List Lick
  scales : List Scale
  verdict : Verdict
deriving DecidableEq, Repr

namespace LeadLine

/-- The material for a lead line; the part of the selection does not matter. -/
def make (s : Selection) (chart : Option Chart) (rules : List Rule) (licks : List Lick)
    (scales : List Scale) : LeadLine :=
  let verdict := s.check chart
  if verdict.isValid then
    let active := { s with part := .lead }.activeRules rules
    ⟨active, applicableLicks licks s.genre s.level, scalesForRules active scales, verdict⟩
  else ⟨[], [], [], verdict⟩

end LeadLine

end Ostinato
