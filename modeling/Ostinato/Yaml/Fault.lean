import Ostinato.Number.Fault

/-!
# Faults of documents

The ways in which a text can be no document, or a document have no value.
-/

namespace Ostinato.Yaml

/-- Why a text has no value, well-formed or not. -/
inductive Fault where
  /-- The text breaks the rules of the format. -/
  | malformed
  /-- A code in a scalar is above those of all characters. -/
  | noCharacter
  | noDigits (base : Nat)
  | tooManyDigits (count : Nat)
  | noYear
  | noMonth
  | noDay
  | noHour
  | noMinute
  | noSecond
  | zoneTooFar (seconds : Int)
deriving DecidableEq, Repr

namespace Fault

/-- A distance from universal time as days and seconds. -/
def distance (seconds : Int) : String :=
  let days := seconds.fdiv 86400
  let rest := seconds.fmod 86400
  let parts := (if days = 0 then [] else [s!"days={days}"]) ++ (if rest = 0 then [] else [s!"seconds={rest}"])
  "datetime.timedelta(" ++ ", ".intercalate parts ++ ")"

def message : Fault → String
  | malformed => "malformed document"
  | noCharacter => "chr() arg not in range(0x110000)"
  | noDigits base => s!"invalid literal for int() with base {base}: ''"
  | tooManyDigits count => (NumberFault.tooManyDigits count).message
  | noYear => "year 0 is out of range"
  | noMonth => "month must be in 1..12"
  | noDay => "day is out of range for month"
  | noHour => "hour must be in 0..23"
  | noMinute => "minute must be in 0..59"
  | noSecond => "second must be in 0..59"
  | zoneTooFar seconds =>
    "offset must be a timedelta strictly between -timedelta(hours=24) and timedelta(hours=24), not "
      ++ distance seconds ++ "."

end Fault

/-- Why reading a text ended before its end, and how far the text was looked at by then. -/
structure Refusal where
  fault : Fault
  seen : Nat
deriving DecidableEq, Repr

end Ostinato.Yaml
