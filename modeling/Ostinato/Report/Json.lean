import Ostinato.Datum

/-!
# JSON text

Data as JSON with two spaces of indent. Characters outside printable ASCII are escaped by their UTF-16
units.
-/

namespace Ostinato.Json

/-! ### Texts -/

def escapeUnit (n : Nat) : String := "\\u" ++ Text.hex 4 n

def escape (c : Char) : String :=
  let n := c.toNat
  if c = '"' then "\\\""
  else if c = '\\' then "\\\\"
  else if c = '\n' then "\\n"
  else if c = '\r' then "\\r"
  else if c = '\t' then "\\t"
  else if n = 8 then "\\b"
  else if n = 12 then "\\f"
  else if 0x20 ≤ n && n ≤ 0x7E then c.toString
  else if n < 0x10000 then escapeUnit n
  else escapeUnit (0xD800 + (n - 0x10000) / 0x400) ++ escapeUnit (0xDC00 + (n - 0x10000) % 0x400)

def string (s : String) : String := "\"" ++ String.join (s.toList.map escape) ++ "\""

/-- A number; those that are not finite are given by name. -/
def number : Binary64 → String
  | .nan => "NaN"
  | .infinity true => "-Infinity"
  | .infinity false => "Infinity"
  | x => x.text

/-! ### Trees -/

def newline (depth : Nat) : String := "\n" ++ String.ofList (List.replicate (2 * depth) ' ')

/-- Items between brackets, each on a line of its own one level deeper. -/
def bracketed (opening closing : String) (depth : Nat) (items : List String) : String :=
  if items.isEmpty then opening ++ closing
  else opening ++ newline (depth + 1) ++ ("," ++ newline (depth + 1)).intercalate items
    ++ newline depth ++ closing

mutual

def render (depth : Nat) : Datum → String
  | .null => "null"
  | .bool true => "true"
  | .bool false => "false"
  | .int n => toString n
  | .real x => number x
  | .text s => string s
  | .date y m d => string (Datum.date y m d).written
  | .moment m => string m.written
  | .list items => bracketed "[" "]" depth (renderItems (depth + 1) items)
  | .map entries => bracketed "\x7b" "\x7d" depth (renderEntries (depth + 1) entries)

def renderItems (depth : Nat) : List Datum → List String
  | [] => []
  | x :: xs => render depth x :: renderItems depth xs

def renderEntries (depth : Nat) : List (Datum × Datum) → List String
  | [] => []
  | (k, v) :: rest => (string k.shown ++ ": " ++ render depth v) :: renderEntries depth rest

end

def text (d : Datum) : String := render 0 d

end Ostinato.Json
