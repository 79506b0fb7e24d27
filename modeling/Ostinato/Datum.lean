import Ostinato.Number.Decimal
import Ostinato.Text.Quoted

/-!
# Untyped data

Session files, catalog rows and reports are trees of untyped data. A map keeps the order in which its
keys were first given.
-/

namespace Ostinato

/-- A point in time as a document writes it; `zone` is the distance from universal time in seconds. -/
structure Moment where
  year : Nat
  month : Nat
  day : Nat
  hour : Nat
  minute : Nat
  second : Nat
  microsecond : Nat
  zone : Option Int
deriving DecidableEq, Repr

inductive Datum where
  | null
  | bool (value : Bool)
  | int (value : Int)
  | real (value : Binary64)
  | text (value : String)
  | date (year month day : Nat)
  | moment (value : Moment)
  | list (items : List Datum)
  | map (entries : List (Datum × Datum))
deriving Repr, Inhabited

namespace Datum

def object (entries : List (String × Datum)) : Datum :=
  map (entries.map fun e => (text e.1, e.2))

def texts (items : List String) : Datum := list (items.map text)

/-- A text, or nothing. -/
def optionalText : Option String → Datum
  | some s => text s
  | none => null

def isText (name : String) : Datum → Bool
  | text s => s == name
  | _ => false

def get? (name : String) : Datum → Option Datum
  | map entries => (entries.find? (·.1.isText name)).map (·.2)
  | _ => none

/-! ### Written form -/

/-- The name of the kind of a datum, as messages give it. -/
def kindName : Datum → String
  | null => "NoneType"
  | bool _ => "bool"
  | int _ => "int"
  | real _ => "float"
  | text _ => "str"
  | date .. => "date"
  | moment _ => "datetime"
  | list _ => "list"
  | map _ => "dict"

end Datum

/-- A time zone by its distance from universal time, as days and seconds of a day. -/
def Moment.zoneText (seconds : Int) : String :=
  if seconds = 0 then "datetime.timezone.utc"
  else
    let days := seconds.fdiv 86400
    let rest := seconds.fmod 86400
    let parts := (if days = 0 then [] else [s!"days={days}"])
      ++ (if rest = 0 then [] else [s!"seconds={rest}"])
    "datetime.timezone(datetime.timedelta(" ++ ", ".intercalate parts ++ "))"

def Moment.written (m : Moment) : String :=
  let small := if m.microsecond ≠ 0 then [m.second, m.microsecond]
    else if m.second ≠ 0 then [m.second] else []
  let numbers := ([m.year, m.month, m.day, m.hour, m.minute] ++ small).map toString
  let zone := match m.zone with
    | some seconds => ["tzinfo=" ++ zoneText seconds]
    | none => []
  "datetime.datetime(" ++ ", ".intercalate (numbers ++ zone) ++ ")"

namespace Datum

mutual

def written : Datum → String
  | null => "None"
  | bool true => "True"
  | bool false => "False"
  | int n => toString n
  | real x => x.text
  | text s => Text.quoted s
  | date y m d => s!"datetime.date({y}, {m}, {d})"
  | moment m => m.written
  | list items => "[" ++ ", ".intercalate (writtenItems items) ++ "]"
  | map entries => "\x7b" ++ ", ".intercalate (writtenEntries entries) ++ "\x7d"

def writtenItems : List Datum → List String
  | [] => []
  | x :: xs => written x :: writtenItems xs

def writtenEntries : List (Datum × Datum) → List String
  | [] => []
  | (k, v) :: rest => (written k ++ ": " ++ written v) :: writtenEntries rest

end

end Datum

/-! ### Standing alone -/

def zeroPadded (width n : Nat) : String :=
  let digits := toString n
  String.ofList (List.replicate (width - digits.length) '0') ++ digits

def dateText (year month day : Nat) : String :=
  zeroPadded 4 year ++ "-" ++ zeroPadded 2 month ++ "-" ++ zeroPadded 2 day

namespace Moment

/-- A distance from universal time, with seconds only if there are any. -/
def offsetText (seconds : Int) : String :=
  let n := seconds.natAbs
  let rest := n % 60
  (if seconds < 0 then "-" else "+") ++ zeroPadded 2 (n / 3600) ++ ":" ++ zeroPadded 2 (n / 60 % 60)
    ++ (if rest = 0 then "" else ":" ++ zeroPadded 2 rest)

def text (m : Moment) : String :=
  dateText m.year m.month m.day ++ " " ++ zeroPadded 2 m.hour ++ ":" ++ zeroPadded 2 m.minute
    ++ ":" ++ zeroPadded 2 m.second
    ++ (if m.microsecond = 0 then "" else "." ++ zeroPadded 6 m.microsecond)
    ++ (m.zone.map offsetText).getD ""

end Moment

/-- The text of a datum that stands alone: texts are given without quotes, and times as they are usually
written. -/
def Datum.shown : Datum → String
  | .text s => s
  | .date y m d => dateText y m d
  | .moment m => m.text
  | d => d.written

end Ostinato
