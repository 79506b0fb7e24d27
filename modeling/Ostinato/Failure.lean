import Ostinato.Number.Fault
import Ostinato.Record.Fault

/-!
# Failures

Everything that can keep an operation from having a result: a number without a value, a record that
is rejected, a random source that cannot start or answer, and a catalog row without an id.
-/

namespace Ostinato

inductive Failure where
  | number (fault : NumberFault)
  | rejected (rejection : Rejection)
  /-- A scripted random source has no element left. -/
  | scriptExhausted
  /-- A number below zero choices was asked for. -/
  | nothingToDraw
  /-- A row of a keyed catalog table has no id. -/
  | rowWithoutId
  /-- A random source was asked for with a seed that has no value. -/
  | seedWithoutValue
deriving Repr

namespace Failure

/-- The message of a failure; a rejection is told with all its faults. -/
def message : Failure → String
  | number fault => fault.message
  | rejected rejection => rejection.text
  | scriptExhausted => "random script is exhausted"
  | nothingToDraw => "empty range for randrange()"
  | rowWithoutId => "'id'"
  | seedWithoutValue =>
    "The only supported seed types are: None,\nint, float, str, bytes, and bytearray."

/-- The result of a computation with numbers, as one that may fail in any way. -/
def ofNumber {α : Type} : Except NumberFault α → Except Failure α
  | .ok a => .ok a
  | .error fault => .error (number fault)

/-- The result of reading a record, as one that may fail in any way. -/
def ofRecord {α : Type} : Except Rejection α → Except Failure α
  | .ok a => .ok a
  | .error rejection => .error (rejected rejection)

@[simp] theorem ofNumber_ok {α : Type} (a : α) : ofNumber (.ok a) = .ok a := rfl
@[simp] theorem ofRecord_ok {α : Type} (a : α) : ofRecord (.ok a) = .ok a := rfl

theorem ofNumber_eq_ok {α : Type} {r : Except NumberFault α} {a : α} :
    ofNumber r = .ok a ↔ r = .ok a := by
  cases r <;> simp [ofNumber]

theorem ofRecord_eq_ok {α : Type} {r : Except Rejection α} {a : α} :
    ofRecord r = .ok a ↔ r = .ok a := by
  cases r <;> simp [ofRecord]

end Failure

end Ostinato
