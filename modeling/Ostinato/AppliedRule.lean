import Ostinato.Setting
import Ostinato.Slot

/-!
# Applied rules

An applied rule binds a rich rule to a slot, for one part or for every part.
-/

namespace Ostinato

structure AppliedRule where
  ruleId : String
  slot : Slot
  /-- The part that the rule is bound for; none stands for every part. -/
  partId : Option String
  registerOverride : Option String
  parameters : Option (List (String × Setting))
deriving DecidableEq, Repr

namespace AppliedRule

def ruleIdField : Field String := .cased "rule_id" "ruleId" .name
def slotField : Field Slot := .single "slot" Slot.codec
def partIdField : Field (Option String) := .cased "part_id" "partId" (.optional .text)
def registerField : Field (Option String) :=
  .cased "register_override" "registerOverride" (.optional .text)
def parametersField : Field (Option (List (String × Setting))) :=
  .single "parameters" (.optional (.mapOf Setting.codec))

def read (d : Datum) : Checked AppliedRule :=
  AppliedRule.mk <$> ruleIdField.required d <*> slotField.required d <*> partIdField.orDefault none d
    <*> registerField.orDefault none d <*> parametersField.orDefault none d

def fields (a : AppliedRule) : List (String × Datum) :=
  [ruleIdField.entry a.ruleId, slotField.entry a.slot, partIdField.entry a.partId,
    registerField.entry a.registerOverride, parametersField.entry a.parameters]

def title : String := "AppliedRule"

def codec : Codec AppliedRule := .record title read fields

/-- A rule bound to everything for every part. The id of a rule is a text with at least one character. -/
def everywhere (ruleId : Datum) : Except Rejection AppliedRule :=
  (codec.decode (.object [("rule_id", ruleId), ("slot", Slot.codec.encode .global)])).orReject title

/-- The place that a rule occupies: at most one rule is bound to it. -/
def key (a : AppliedRule) : Slot × Option String := (a.slot, a.partId)

/-- Whether a rule is bound for a part, on its own or with every part. -/
def appliesTo (a : AppliedRule) (partId : String) : Bool :=
  a.partId == none || a.partId == some partId

end AppliedRule

end Ostinato
