import Ostinato.Datum

/-!
# Faults of records

A datum that does not fit a record is rejected with all its faults, each with the path to it, its
cause and the datum that was found there.
-/

namespace Ostinato

/-- One step of the path to a datum. -/
inductive Step where
  | key (name : String)
  | index (position : Int)
deriving DecidableEq, Repr

/-- A step in a written path. A key with a point in it stands between backticks, as points separate steps. -/
def Step.text : Step → String
  | key name => if name.contains '.' then "`" ++ name ++ "`" else name
  | index position => toString position

namespace Fault

/-- Why a datum does not fit. -/
inductive Cause where
  | missing
  | notText
  | emptyText
  | notInteger
  | fractional
  | unreadableInteger
  | integerTooLong
  | notFinite
  | notNumber
  | unreadableNumber
  | notBoolean
  | unreadableBoolean
  | notOption (options : List String)
  | notMember (options : List String)
  | tooLow (least : Int)
  | tooHigh (greatest : Int)
  | notAbove (bound : Int)
  | notTuple
  | notList
  | notMap
  | emptyTuple
  | notRecord (title : String)
  | notTagged
  | tagMissing
  | tagUnknown (shown : String) (expected : List String)
deriving DecidableEq, Repr

namespace Cause

def code : Cause → String
  | missing => "missing"
  | notText => "string_type"
  | emptyText => "string_too_short"
  | notInteger => "int_type"
  | fractional => "int_from_float"
  | unreadableInteger => "int_parsing"
  | integerTooLong => "int_parsing_size"
  | notFinite => "finite_number"
  | notNumber => "float_type"
  | unreadableNumber => "float_parsing"
  | notBoolean => "bool_type"
  | unreadableBoolean => "bool_parsing"
  | notOption _ => "literal_error"
  | notMember _ => "enum"
  | tooLow _ => "greater_than_equal"
  | tooHigh _ => "less_than_equal"
  | notAbove _ => "greater_than"
  | notTuple => "tuple_type"
  | notList => "list_type"
  | notMap => "dict_type"
  | emptyTuple => "too_short"
  | notRecord _ => "model_type"
  | notTagged => "model_attributes_type"
  | tagMissing => "union_tag_not_found"
  | tagUnknown .. => "union_tag_invalid"

def quote (s : String) : String := "'" ++ s ++ "'"

/-- Options between quotes: commas, and "or" before the last. -/
def alternatives (options : List String) : String :=
  match options.reverse with
  | [] => ""
  | [only] => quote only
  | last :: others => ", ".intercalate (others.reverse.map quote) ++ " or " ++ quote last

def message : Cause → String
  | missing => "Field required"
  | notText => "Input should be a valid string"
  | emptyText => "String should have at least 1 character"
  | notInteger => "Input should be a valid integer"
  | fractional => "Input should be a valid integer, got a number with a fractional part"
  | unreadableInteger => "Input should be a valid integer, unable to parse string as an integer"
  | integerTooLong => "Unable to parse input string as an integer, exceeded maximum size"
  | notFinite => "Input should be a finite number"
  | notNumber => "Input should be a valid number"
  | unreadableNumber => "Input should be a valid number, unable to parse string as a number"
  | notBoolean => "Input should be a valid boolean"
  | unreadableBoolean => "Input should be a valid boolean, unable to interpret input"
  | notOption options => "Input should be " ++ alternatives options
  | notMember options => "Input should be " ++ alternatives options
  | tooLow least => s!"Input should be greater than or equal to {least}"
  | tooHigh greatest => s!"Input should be less than or equal to {greatest}"
  | notAbove bound => s!"Input should be greater than {bound}"
  | notTuple => "Input should be a valid tuple"
  | notList => "Input should be a valid list"
  | notMap => "Input should be a valid dictionary"
  | emptyTuple => "Tuple should have at least 1 item after validation, not 0"
  | notRecord title => "Input should be a valid dictionary or instance of " ++ title
  | notTagged => "Input should be a valid dictionary or object to extract fields from"
  | tagMissing => "Unable to extract tag using discriminator 'type'"
  | tagUnknown shown expected =>
    "Input tag " ++ quote shown ++ " found using 'type' does not match any of the expected tags: "
      ++ ", ".intercalate (expected.map quote)

end Cause

end Fault

structure Fault where
  path : List Step
  cause : Fault.Cause
  found : Datum
deriving Repr

/-- The record type that was asked for, and the faults of the datum. -/
structure Rejection where
  title : String
  faults : List Fault
deriving Repr

namespace Fault

/-- The longest initial piece of a text with at most `bytes` bytes. -/
def initialPiece (bytes : Nat) : List Char → List Char
  | [] => []
  | c :: cs => if c.utf8Size ≤ bytes then c :: initialPiece (bytes - c.utf8Size) cs else []

/-- A text of more than 50 bytes is cut to its first 25 and its last 24, at whole characters. -/
def abridged (s : String) : String :=
  if s.utf8ByteSize ≤ 50 then s
  else
    String.ofList (initialPiece 25 s.toList) ++ "..."
      ++ String.ofList (initialPiece 24 s.toList.reverse).reverse

/-- The lines of a fault: its path, then its message with the cause and what was found. -/
def text (f : Fault) : String :=
  let place := if f.path.isEmpty then "" else ".".intercalate (f.path.map Step.text) ++ "\n"
  place ++ "  " ++ f.cause.message ++ " [type=" ++ f.cause.code ++ ", input_value="
    ++ abridged f.found.written ++ ", input_type=" ++ f.found.kindName ++ "]"

end Fault

/-- The faults of a rejected datum as a text, with their number in front. -/
def Rejection.text (r : Rejection) : String :=
  let plural := if r.faults.length = 1 then "" else "s"
  s!"{r.faults.length} validation error{plural} for {r.title}\n"
    ++ "\n".intercalate (r.faults.map Fault.text)

end Ostinato
