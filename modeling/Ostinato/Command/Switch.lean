import Ostinato.Text.Integer
import Ostinato.Text.Quoted

/-!
# Switches

The verbs of the command line and the switches that each of them knows, with the values that a switch
takes. A use of them that cannot be understood is a misuse.
-/

namespace Ostinato.Command

/-! ### Operands -/

/-- What a switch takes. -/
inductive Operand where
  | nothing
  | text
  | number
  | numberWithin (least greatest : Int)
deriving DecidableEq, Repr

inductive Value where
  /-- For a switch that takes nothing, and for one that is given none. -/
  | nothing
  | text (s : String)
  | number (n : Int)
deriving DecidableEq, Repr

/-! ### Switches and verbs -/

inductive Switch where
  | help
  | config
  | json
  | verbose
  | genre
  | level
  | progression
  | rootString
  | randomness
  | seed
  | rule
deriving DecidableEq, Repr

namespace Switch

def names : Switch → List String
  | help => ["-h", "--help"]
  | config => ["--config"]
  | json => ["--json"]
  | verbose => ["-v", "--verbose"]
  | genre => ["--genre"]
  | level => ["--level"]
  | progression => ["--progression"]
  | rootString => ["--root-string"]
  | randomness => ["--randomness"]
  | seed => ["--seed"]
  | rule => ["--rule"]

def operand : Switch → Operand
  | help => .nothing
  | config => .text
  | json => .nothing
  | verbose => .nothing
  | genre => .text
  | level => .number
  | progression => .text
  | rootString => .numberWithin 1 6
  | randomness => .number
  | seed => .number
  | rule => .text

/-- The names of a switch, as messages give them. -/
def title (s : Switch) : String := "/".intercalate s.names

end Switch

inductive Verb where
  | bass
  | pipeline
  | lead
  | slots
  | catalog
deriving DecidableEq, Repr

namespace Verb

def all : List Verb := [bass, pipeline, lead, slots, catalog]

def word : Verb → String
  | bass => "bass"
  | pipeline => "pipeline"
  | lead => "lead"
  | slots => "slots"
  | catalog => "catalog"

def shared : List Switch := [.help, .config, .json, .verbose]

def choices : List Switch := [.genre, .level, .progression, .rootString, .randomness, .seed]

def switches : Verb → List Switch
  | bass => shared ++ choices
  | pipeline => shared ++ [.progression, .rule]
  | lead => shared ++ choices
  | slots => shared ++ [.progression]
  | catalog => shared ++ [.genre]

def ofWord? (w : String) : Option Verb := all.find? (·.word == w)

end Verb

/-! ### Misuse -/

inductive Misuse where
  | ambiguous (written : String) (names : List String)
  | valueMissing (switch : Switch)
  | valueIgnored (switch : Switch) (value : String)
  | notNumber (switch : Switch) (value : String)
  | outside (switch : Switch) (value least greatest : Int)
  | unknownVerb (word : String)
  | unrecognized (words : List String)
deriving DecidableEq, Repr

namespace Misuse

def choices (least greatest : Int) : List Int :=
  (List.range (greatest - least + 1).toNat).map fun (i : Nat) => least + (i : Int)

def message : Misuse → String
  | ambiguous written names => s!"ambiguous option: {written} could match " ++ ", ".intercalate names
  | valueMissing s => s!"argument {s.title}: expected one argument"
  | valueIgnored s value => s!"argument {s.title}: ignored explicit argument {Text.quoted value}"
  | notNumber s value => s!"argument {s.title}: invalid int value: {Text.quoted value}"
  | outside s value least greatest =>
    s!"argument {s.title}: invalid choice: {value} (choose from "
      ++ ", ".intercalate ((choices least greatest).map fun n => toString n) ++ ")"
  | unknownVerb word =>
    s!"argument COMMAND: invalid choice: {Text.quoted word} (choose from "
      ++ ", ".intercalate (Verb.all.map fun v => Text.quoted v.word) ++ ")"
  | unrecognized words => "unrecognized arguments: " ++ " ".intercalate words

end Misuse

namespace Switch

/-- The value that a switch reads from a text with a value in it. -/
def filledValue (s : Switch) (written : String) : Except Misuse Value :=
  match s.operand with
  | .nothing => .error (.valueIgnored s written)
  | .text => .ok (.text written)
  | .number =>
    match Text.integer? written with
    | some n => .ok (.number n)
    | none => .error (.notNumber s written)
  | .numberWithin least greatest =>
    match Text.integer? written with
    | some n =>
      if least ≤ n ∧ n ≤ greatest then .ok (.number n) else .error (.outside s n least greatest)
    | none => .error (.notNumber s written)

/-- The value that a switch reads from a text. Two dashes attached to a switch close it without a value,
whatever it takes. -/
def value (s : Switch) (written : String) : Except Misuse Value :=
  if written = "--" then .ok .nothing else s.filledValue written

end Switch

end Ostinato.Command
