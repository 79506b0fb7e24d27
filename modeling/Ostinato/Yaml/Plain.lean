import Ostinato.Datum
import Ostinato.Record.WrittenNumber
import Ostinato.Yaml.Fault

/-!
# Plain scalars as data

What a plain scalar stands for: nothing, a truth value, a number, a date, a mark of mappings, or else a
text.
-/

namespace Ostinato.Yaml

namespace Plain

open WrittenNumber (isPlainDigit)

/-! ### Words -/

def nullWords : List String := ["", "~", "null", "Null", "NULL"]

def trueWords : List String := ["yes", "Yes", "YES", "true", "True", "TRUE", "on", "On", "ON"]

def falseWords : List String := ["no", "No", "NO", "false", "False", "FALSE", "off", "Off", "OFF"]

/-! ### Numbers -/

/-- A sign in front: whether it is negative, and the rest. -/
def sign (cs : List Char) : Bool × List Char := WrittenNumber.signed cs

def withoutUnderscores (cs : List Char) : List Char := cs.filter (· != '_')

def isDigitOr_ (c : Char) : Bool := isPlainDigit c || c == '_'

def colonParts : List Char → List (List Char)
  | [] => [[]]
  | c :: rest =>
    if c = ':' then [] :: colonParts rest
    else match colonParts rest with
      | part :: parts => (c :: part) :: parts
      | [] => [[c]]

/-- Whether a piece after a colon is a number below sixty. -/
def isSixtieth (cs : List Char) : Bool :=
  match cs with
  | [a] => isPlainDigit a
  | [a, b] => '0' ≤ a && a ≤ '5' && isPlainDigit b
  | _ => false

def sixtieths (parts : List Nat) : Nat := parts.foldl (fun n p => n * 60 + p) 0

def digitOf (c : Char) : Nat :=
  if isPlainDigit c then c.toNat - '0'.toNat
  else if 'a' ≤ c then c.toNat - 'a'.toNat + 10 else c.toNat - 'A'.toNat + 10

/-- Digits of a base, which may turn out to be none. -/
def inBase (base : Nat) (digits : List Char) : Except Fault Nat :=
  let digits := withoutUnderscores digits
  if digits.isEmpty then .error (.noDigits base)
  else .ok (digits.foldl (fun n c => n * base + digitOf c) 0)

def decimal (digits : List Char) : Except Fault Nat :=
  let digits := withoutUnderscores digits
  if NumberFault.digitLimit < digits.length then .error (.tooManyDigits digits.length)
  else .ok (WrittenNumber.value digits)

def magnitude? (cs : List Char) : Option (Except Fault Nat) :=
  match cs with
  | [] => none
  | ['0'] => some (.ok 0)
  | '0' :: 'b' :: rest =>
    if !rest.isEmpty && rest.all fun c => c == '0' || c == '1' || c == '_' then some (inBase 2 rest) else none
  | '0' :: 'x' :: rest =>
    if !rest.isEmpty && rest.all fun c => isDigitOr_ c || ('a' ≤ c && c ≤ 'f') || ('A' ≤ c && c ≤ 'F') then
      some (inBase 16 rest)
    else none
  | '0' :: rest =>
    if rest.all fun c => ('0' ≤ c && c ≤ '7') || c == '_' then some (inBase 8 ('0' :: rest)) else none
  | c :: rest =>
    if !isPlainDigit c then none
    else match colonParts (c :: rest) with
      | [digits] => if digits.all isDigitOr_ then some (decimal digits) else none
      | first :: others =>
        if first.all isDigitOr_ && others.all isSixtieth then
          some ((decimal first).map fun n => sixtieths (n :: others.map WrittenNumber.value))
        else none
      | [] => none

def integer? (cs : List Char) : Option (Except Fault Int) :=
  let (negative, body) := sign cs
  (magnitude? body).map fun m => m.map fun n => if negative then -(n : Int) else n

/-- An exponent with its sign; nothing is one as well. -/
def isExponent (cs : List Char) : Bool :=
  match cs with
  | [] => true
  | e :: s :: digits =>
    (e == 'e' || e == 'E') && (s == '+' || s == '-') && !digits.isEmpty && digits.all isPlainDigit
  | _ => false

/-- Whether a text without a sign is a decimal with a point. -/
def isDecimal (signed : Bool) (cs : List Char) : Bool :=
  match cs with
  | '.' :: c :: rest => !signed && isPlainDigit c && isExponent (rest.dropWhile isDigitOr_)
  | c :: rest =>
    isPlainDigit c && match rest.dropWhile isDigitOr_ with
      | '.' :: fraction => isExponent (fraction.dropWhile isDigitOr_)
      | _ => false
  | [] => false

def realValue (negative : Bool) (cs : List Char) : Binary64 :=
  match WrittenNumber.decimal? (withoutUnderscores cs) with
  | some d => d.toBinary64 negative
  | none => .nan

/-- A number in base sixty with a point in its last piece. -/
def sixtiethsReal? (cs : List Char) : Option Binary64 :=
  match (colonParts cs).reverse with
  | last :: middle =>
    let whole := last.takeWhile (· != '.')
    let fraction := last.dropWhile (· != '.')
    match middle.reverse with
    | first :: others =>
      if (first.head?.any isPlainDigit) && first.all isDigitOr_ && others.all isSixtieth
          && isSixtieth whole && fraction.head? == some '.' && (fraction.drop 1).all isDigitOr_ then
        some ((last :: middle).foldl (fun (state : Binary64 × Nat) part =>
          (state.1.add ((realValue false part).mul (.ofInt state.2)), state.2 * 60))
          (Binary64.finite 0, 1)).1
      else none
    | [] => none
  | [] => none

/-- A number with a point, or one that is not finite. -/
def real? (cs : List Char) : Option Binary64 :=
  let (negative, body) := sign cs
  let signed := body.length != cs.length
  let word := String.ofList body
  if [".inf", ".Inf", ".INF"].contains word then some (.infinity negative)
  else if !signed && [".nan", ".NaN", ".NAN"].contains word then some .nan
  else if isDecimal signed body then some (realValue negative body)
  else (sixtiethsReal? body).map fun x => if negative then x.neg else x

/-- A number in any decimal form, for scalars that are said to be numbers with a point. -/
def anyReal? (cs : List Char) : Option Binary64 :=
  (real? cs).or (WrittenNumber.plainReal? (withoutUnderscores cs))

/-! ### Dates -/

def daysIn (year month : Nat) : Nat :=
  if month = 2 then (if year % 4 = 0 ∧ (year % 100 ≠ 0 ∨ year % 400 = 0) then 29 else 28)
  else if month = 4 ∨ month = 6 ∨ month = 9 ∨ month = 11 then 30 else 31

def checkDate (year month day : Nat) : Except Fault Unit :=
  if year = 0 then .error .noYear
  else if month = 0 ∨ 12 < month then .error .noMonth
  else if day = 0 ∨ daysIn year month < day then .error .noDay
  else .ok ()

def checkTime (hour minute second : Nat) : Except Fault Unit :=
  if 23 < hour then .error .noHour
  else if 59 < minute then .error .noMinute
  else if 59 < second then .error .noSecond
  else .ok ()

/-- Between `least` and `greatest` digits at the start of a text, and the rest. -/
def digits? (least greatest : Nat) (cs : List Char) : Option (Nat × List Char) :=
  let ds := (cs.take greatest).takeWhile isPlainDigit
  if ds.length < least then none else some (WrittenNumber.value ds, cs.drop ds.length)

def char? (c : Char) : List Char → Option (List Char)
  | x :: rest => if x = c then some rest else none
  | [] => none

/-- The zone at the end of a point in time: none, universal time, or a distance from it. -/
def zone? (cs : List Char) : Option (Option Int) :=
  match cs with
  | [] => some none
  | _ =>
    match cs.dropWhile fun c => c == ' ' || c == '\t' with
    | ['Z'] => some (some 0)
    | s :: rest =>
      if s = '+' ∨ s = '-' then do
        let (hours, rest) ← digits? 1 2 rest
        let minutes ← match rest with
          | [] => some 0
          | ':' :: rest => match digits? 2 2 rest with
            | some (m, []) => some m
            | _ => none
          | _ => none
        let seconds := ((hours * 60 + minutes) * 60 : Nat)
        return some (if s = '-' then -(seconds : Int) else seconds)
      else none
    | [] => some none

/-- The digits of a fraction of a second as microseconds. -/
def microseconds (digits : List Char) : Nat :=
  let six := digits.take 6
  WrittenNumber.value (six ++ List.replicate (6 - six.length) '0')

def moment? (year month day : Nat) (cs : List Char) : Option (Except Fault Datum) := do
  let rest ← match cs with
    | c :: rest =>
      if c = 'T' ∨ c = 't' then some rest
      else if c = ' ' ∨ c = '\t' then some (rest.dropWhile fun x => x == ' ' || x == '\t')
      else none
    | [] => none
  let (hour, rest) ← digits? 1 2 rest
  let (minute, rest) ← digits? 2 2 (← char? ':' rest)
  let (second, rest) ← digits? 2 2 (← char? ':' rest)
  let (fraction, rest) := match rest with
    | '.' :: tail => (tail.takeWhile isPlainDigit, tail.dropWhile isPlainDigit)
    | _ => ([], rest)
  let zone ← zone? rest
  return do
    match zone with
    | some seconds => if 86400 ≤ seconds.natAbs then throw (.zoneTooFar seconds)
    | none => pure ()
    checkDate year month day
    checkTime hour minute second
    return .moment ⟨year, month, day, hour, minute, second, microseconds fraction, zone⟩

/-- A date, or a point in time. A date alone has two digits for month and day. -/
def timestamp? (cs : List Char) : Option (Except Fault Datum) := do
  let (year, afterYear) ← digits? 4 4 cs
  let monthStart ← char? '-' afterYear
  let (month, afterMonth) ← digits? 1 2 monthStart
  let dayStart ← char? '-' afterMonth
  let (day, rest) ← digits? 1 2 dayStart
  if rest.isEmpty then
    if monthStart.length = 5 ∧ dayStart.length = 2 then
      return (checkDate year month day).map fun _ => .date year month day
    else none
  else moment? year month day rest

/-! ### Scalars -/

/-- What a plain scalar stands for. -/
inductive Meaning where
  | datum (value : Datum)
  /-- The key of a mapping whose entries are merged in. -/
  | mergeMark
  /-- The mark of a default value. -/
  | valueMark

def meaning (s : String) : Except Fault Meaning :=
  if nullWords.contains s then .ok (.datum .null)
  else if trueWords.contains s then .ok (.datum (.bool true))
  else if falseWords.contains s then .ok (.datum (.bool false))
  else if s = "<<" then .ok .mergeMark
  else if s = "=" then .ok .valueMark
  else
    let cs := s.toList
    match real? cs with
    | some x => .ok (.datum (.real x))
    | none =>
      match integer? cs with
      | some n => n.map fun n => .datum (.int n)
      | none =>
        match timestamp? cs with
        | some t => t.map .datum
        | none => .ok (.datum (.text s))

end Plain

end Ostinato.Yaml
