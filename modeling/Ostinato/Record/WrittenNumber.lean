import Ostinato.Number.Decimal
import Ostinato.Text.Blank

/-!
# Numbers written as text

Numeric fields of records accept numbers in quotes. White space may stand around them and single
underscores inside; an integer may have both at once, a decimal only one of them.
-/

namespace Ostinato.WrittenNumber

/-- An ASCII digit. -/
def isPlainDigit (c : Char) : Bool := '0' ≤ c && c ≤ '9'

def value (digits : List Char) : Nat :=
  digits.foldl (fun n c => n * 10 + (c.toNat - '0'.toNat)) 0

/-- A sign in front, and whether it is negative. -/
def signed : List Char → Bool × List Char
  | '-' :: cs => (true, cs)
  | '+' :: cs => (false, cs)
  | cs => (false, cs)

/-! ### Underscores -/

/-- Whether a character other than an underscore follows each underscore. -/
def eachFollowed : List Char → Bool
  | [] => true
  | ['_'] => false
  | '_' :: '_' :: _ => false
  | _ :: cs => eachFollowed cs

/-- Whether each underscore stands alone and inside the text. -/
def underscoresInside (cs : List Char) : Bool := cs.head? != some '_' && eachFollowed cs

/-- A text without its underscores; where one of them is misplaced they all stay. -/
def withoutUnderscores (cs : List Char) : List Char :=
  if underscoresInside cs then cs.filter (· != '_') else cs

/-! ### Integers -/

/-- Digits without zeros in front, or a single zero. -/
def isPlainNumber : List Char → Bool
  | [] => false
  | ['0'] => true
  | c :: cs => c != '0' && (c :: cs).all isPlainDigit

/-- Reads an integer in plain form: a minus sign or none, and digits. The limit is one of characters. -/
def plainInt? (cs : List Char) : Option Int :=
  if NumberFault.digitLimit < cs.length then none
  else match cs with
    | '-' :: digits => if isPlainNumber digits then some (-(value digits : Int)) else none
    | digits => if isPlainNumber digits then some (value digits) else none

/-- What remains of a text after zeros; `before` is the last character that was passed. Underscores
among the zeros are passed as well. A digit or a minus sign ends them, and one character stays in front
of a point and at the end. -/
def afterZeros? (before : Char) : List Char → Option (List Char)
  | [] => some [before]
  | c :: cs =>
    if c = '0' ∨ c = '_' then afterZeros? c cs
    else if c = '.' then some (before :: c :: cs)
    else if isPlainDigit c ∨ c = '-' then some (c :: cs)
    else none

/-- A text that starts with a digit, without zeros in front. -/
def withoutZeros? : List Char → Option (List Char)
  | [] => none
  | c :: cs =>
    if c = '0' then afterZeros? c cs
    else if isPlainDigit c then some (c :: cs)
    else none

/-- A text without a fraction of zeros. A point with no digit after it stays. -/
def withoutFraction (cs : List Char) : List Char :=
  let fraction := (cs.dropWhile (· != '.')).drop 1
  if !fraction.isEmpty && fraction.all (· == '0') then cs.takeWhile (· != '.') else cs

/-- Brings an integer into plain form. White space goes first, then the sign, zeros in front, a fraction
of zeros, and underscores; a minus sign comes back in the end. -/
def plainForm? (cs : List Char) : Option (List Char) :=
  let (negative, body) := signed (Text.strip Text.isWhiteSpace cs)
  (withoutZeros? body).map fun rest =>
    let digits := withoutUnderscores (withoutFraction rest)
    if negative then '-' :: digits else digits

def int? (s : String) : Option Int := (plainForm? s.toList).bind plainInt?

/-- Whether a text, as it stands, starts with an integer in plain form that exceeds the limit. -/
def startsTooLong (cs : List Char) : Bool :=
  let body := match cs with
    | '-' :: rest => rest
    | _ => cs
  body.head? != some '0'
    && decide (NumberFault.digitLimit < cs.length - body.length + (body.takeWhile isPlainDigit).length)

/-! ### Decimals -/

/-- The exponent after its mark; none means that what follows is no exponent. -/
def exponent? : List Char → Option Int
  | [] => some 0
  | c :: cs =>
    if c = 'e' ∨ c = 'E' then
      let (negative, digits) := signed cs
      if digits.isEmpty || !digits.all isPlainDigit then none
      else some (if negative then -(value digits : Int) else value digits)
    else none

/-- Digits with a point, on at least one side of which there is a digit, and an exponent. -/
def decimal? (cs : List Char) : Option Decimal :=
  let whole := cs.takeWhile isPlainDigit
  let afterWhole := cs.dropWhile isPlainDigit
  let (fraction, rest) := match afterWhole with
    | '.' :: tail => (tail.takeWhile isPlainDigit, tail.dropWhile isPlainDigit)
    | tail => ([], tail)
  if whole.isEmpty && fraction.isEmpty then none
  else (exponent? rest).map fun e => ⟨value (whole ++ fraction), e - fraction.length⟩

/-- A sign and a decimal, or the name of an infinity or of what is not a number, in any case. -/
def plainReal? (cs : List Char) : Option Binary64 :=
  let (negative, body) := signed cs
  let name := String.ofList (body.map Char.toLower)
  if name = "inf" ∨ name = "infinity" then some (.infinity negative)
  else if name = "nan" then some .nan
  else (decimal? body).map (Decimal.toBinary64 negative)

/-- Reads a number with white space around it, or else with underscores inside it. -/
def real? (s : String) : Option Binary64 :=
  match plainReal? (Text.strip Text.isWhiteSpace s.toList) with
  | some x => some x
  | none => plainReal? (withoutUnderscores s.toList)

/-! ### Truth values -/

/-- The words for a truth value, in any case and without space around them. -/
def bool? (s : String) : Option Bool :=
  let word := String.ofList (s.toList.map Char.toLower)
  if ["1", "t", "y", "on", "yes", "true"].contains word then some true
  else if ["0", "f", "n", "off", "no", "false"].contains word then some false
  else none

end Ostinato.WrittenNumber
