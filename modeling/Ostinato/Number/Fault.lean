/-!
# Faults of number conversions

The ways in which arithmetic on beats, degrees and weights can have no answer.
-/

namespace Ostinato

/-- Why a conversion or a quotient has no value. -/
inductive NumberFault where
  /-- An integer was asked of a value that is not a number. -/
  | nanToInteger
  /-- An integer was asked of an infinity. -/
  | infinityToInteger
  /-- A whole number lies outside the range of binary64. -/
  | integerTooLarge
  | divisionByZero
  /-- A quotient of whole numbers lies outside the range of binary64. -/
  | quotientTooLarge
  /-- A written integer has more digits than are read. -/
  | tooManyDigits (count : Nat)
deriving DecidableEq, Repr

namespace NumberFault

/-- The greatest number of digits that a written integer may have. -/
def digitLimit : Nat := 4300

def message : NumberFault → String
  | nanToInteger => "cannot convert float NaN to integer"
  | infinityToInteger => "cannot convert float infinity to integer"
  | integerTooLarge => "int too large to convert to float"
  | divisionByZero => "division by zero"
  | quotientTooLarge => "integer division result too large for a float"
  | tooManyDigits count =>
    s!"Exceeds the limit ({digitLimit} digits) for integer string conversion: value has {count} digits; use sys.set_int_max_str_digits() to increase the limit"

end NumberFault

end Ostinato
