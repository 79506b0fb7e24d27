import Ostinato.AppliedRule
import Ostinato.Part
import Ostinato.RichRule

/-!
# Registers

A register decides the octave that a part sounds in.
-/

namespace Ostinato

namespace Register

def usual : String := "mid"

/-- The octave of a register; unknown registers sound in the middle one. -/
def octave (register : String) : Nat :=
  if register = "low" then 2 else if register = "high" then 4 else 3

/-- The register of an applied rule: its own, else that of the part, else that of the rule. -/
def choose (applied : AppliedRule) (part : Part) (rule : Option RichRule) : String :=
  givenOr (givenOr (givenOr usual (rule.bind (·.defaultRegister))) part.defaultRegister)
    applied.registerOverride

end Register

end Ostinato
