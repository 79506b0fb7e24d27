import Ostinato.Number.Fault
import Ostinato.Text.Blank
import Ostinato.Text.Digit

/-!
# Integers in any script

An integer is a sign and decimal digits of any script, with single underscores between them and white
space around.
-/

namespace Ostinato.Text

/-- Digits with single underscores between them, without the underscores. -/
def digitRow? : List Char → Option (List Char)
  | [] => none
  | c :: cs =>
    if !isDigit c then none
    else match cs with
      | [] => some [c]
      | '_' :: rest => (digitRow? rest).map (c :: ·)
      | rest => (digitRow? rest).map (c :: ·)

/-- The number that a row of digits stands for, unless the row is too long. -/
def magnitude? (cs : List Char) : Option Nat :=
  match digitRow? cs with
  | some digits => if NumberFault.digitLimit < digits.length then none else some (digitsValue digits)
  | none => none

def integer? (s : String) : Option Int :=
  match strip isWhiteSpace s.toList with
  | '-' :: cs => (magnitude? cs).map fun n => -(n : Int)
  | '+' :: cs => (magnitude? cs).map fun n => (n : Int)
  | cs => (magnitude? cs).map fun n => (n : Int)

example : integer? " -1_0 " = some (-10) := by decide
example : integer? "1__0" = none := by decide

/-- Whether a text looks like a negative number: digits with at most one point, the last of them a
digit, and perhaps the end of a line. -/
def isNegativeNumber : List Char → Bool
  | '-' :: cs =>
    let body := if cs.getLast? = some '\n' then cs.dropLast else cs
    let whole := body.takeWhile isDigit
    match body.dropWhile isDigit with
    | [] => !whole.isEmpty
    | '.' :: fraction => !fraction.isEmpty && fraction.all isDigit
    | _ => false
  | _ => false

end Ostinato.Text
