import Ostinato.AppliedRule
import Ostinato.Catalog.Basic
import Ostinato.Part
import Ostinato.Random.Draw
import Ostinato.Selection

/-!
# Sessions

A session is everything that one run depends on: what the user has selected, the seed, which atomic
rules are enabled, the parts, and the rich rules that are bound to slots.
-/

namespace Ostinato

structure Session where
  selection : Selection
  /-- The seed of the random source; none leaves it to chance. -/
  seed : Option Int
  /-- The ids of the atomic rules in use; none stands for all of them. -/
  enabledRules : Option (List String)
  progression : String
  parts : List Part
  appliedRules : List AppliedRule
deriving DecidableEq, Repr

namespace Session

/-! ### Record -/

def usualProgression : String := "I_IV_V_I"

def usualParts : List Part :=
  [⟨"bass", "Bass", false, some "low"⟩, ⟨"rhythm", "Rhythm", false, some "mid"⟩]

def selectionField : Field Selection := .single "selection" Selection.codec
def seedField : Field (Option Int) := .single "seed" (.optional .int)
def enabledRulesField : Field (Option (List String)) :=
  .single "enabled_rules" (.optional (.listOf .text))
def progressionField : Field String := .single "progression" .text
def partsField : Field (List Part) := .single "parts" (.listOf Part.codec)
def appliedRulesField : Field (List AppliedRule) :=
  .single "applied_rules" (.listOf AppliedRule.codec)

def read (d : Datum) : Checked Session :=
  Session.mk <$> selectionField.orDefault .blank d <*> seedField.orDefault none d
    <*> enabledRulesField.orDefault none d <*> progressionField.orDefault usualProgression d
    <*> partsField.orDefault usualParts d <*> appliedRulesField.orDefault [] d

def fields (s : Session) : List (String × Datum) :=
  [selectionField.entry s.selection, seedField.entry s.seed, enabledRulesField.entry s.enabledRules,
    progressionField.entry s.progression, partsField.entry s.parts,
    appliedRulesField.entry s.appliedRules]

def title : String := "SessionConfig"

def codec : Codec Session := .record title read fields

/-- The session of a user who has not chosen anything. -/
def usual : Session := ⟨.blank, none, none, usualProgression, usualParts, []⟩

/-! ### Use -/

/-- The enabled atomic rules, in the order of the catalog. -/
def rules (s : Session) (c : Catalog) : List Rule :=
  match s.enabledRules with
  | none => c.rules
  | some ids => c.rules.filter fun r => ids.contains r.id

/-- The random source of a session; `chance` is the seed where the session has none. -/
def source (s : Session) (chance : Int) : Source := .seeded (.seeded (s.seed.getD chance))

end Session

end Ostinato
