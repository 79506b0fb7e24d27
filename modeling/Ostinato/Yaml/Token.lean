import Ostinato.Yaml.Cursor

/-!
# Tokens

A YAML text as a row of tokens. The layout is told by tokens too: where a block opens and closes, and
which scalar is the key of a mapping. A key is recognised only by the colon after it, so the places
where one may have started are remembered until then, and tokens from there on are not settled.

A text that breaks the rules is refused where it does.
-/

namespace Ostinato.Yaml

inductive Token where
  | directive
  | documentStart
  | documentEnd
  | blockSequenceStart
  | blockMappingStart
  | blockEnd
  | flowSequenceStart
  | flowMappingStart
  | flowSequenceEnd
  | flowMappingEnd
  | blockEntry
  | flowEntry
  | key
  | value
  | mention (name : String)
  | anchor (name : String)
  | tag (handle suffix : String)
  | scalar (text : String) (plain : Bool)
deriving DecidableEq, Repr

/-- A place where a key may have started. -/
structure KeyPlace where
  token : Nat
  required : Bool
  index : Nat
  line : Nat
  column : Nat

/-- The state of the reading: tokens so far, open blocks by their columns, and for each level of flow
collections the place where a key may have started. -/
structure Scanner where
  cursor : Cursor
  tokens : Array Token
  /-- For each token that is settled, how far the text was looked at by then. -/
  settled : Array Nat
  indent : Int
  outer : List Int
  keyAllowed : Bool
  /-- The place for the innermost level. -/
  place : Option KeyPlace
  /-- The places for the levels around it. -/
  outerPlaces : List (Option KeyPlace)

namespace Scanner

def start (cs : List Char) : Scanner := ⟨Cursor.start cs, #[], #[], -1, [], true, none, []⟩

def inFlow (s : Scanner) : Bool := !s.outerPlaces.isEmpty

def push (s : Scanner) (t : Token) : Scanner := { s with tokens := s.tokens.push t }

def emit (s : Scanner) (t : Token) (width : Nat) : Scanner :=
  { s.push t with cursor := Cursor.pass width s.cursor }

/-! ### Blocks -/

/-- Opens a block at a column, unless one is open there. -/
def opens (s : Scanner) (column : Nat) : Bool := decide (s.indent < column)

def openBlock (s : Scanner) (column : Nat) : Scanner :=
  { s with outer := s.indent :: s.outer, indent := column }

def closeBlocks (column : Int) (tokens : Array Token) (indent : Int) : List Int → Array Token × Int × List Int
  | [] => (tokens, indent, [])
  | before :: outer =>
    if column < indent then closeBlocks column (tokens.push .blockEnd) before outer
    else (tokens, indent, before :: outer)

def unwind (s : Scanner) (column : Int) : Scanner :=
  if s.inFlow then s
  else
    let (tokens, indent, outer) := closeBlocks column s.tokens s.indent s.outer
    { s with tokens := tokens, indent := indent, outer := outer }

/-! ### Keys -/

/-- Gives up the place of the innermost level; a key that has to be there makes that a fault. -/
def forgetPlace (s : Scanner) : Except Refusal Scanner :=
  match s.place with
  | some p => if p.required then .error s.cursor.refusal else .ok { s with place := none }
  | none => .ok s

/-- Remembers the present place, if a key may start here. -/
def savePlace (s : Scanner) : Except Refusal Scanner :=
  let c := s.cursor
  if s.keyAllowed then
    s.forgetPlace.map fun s =>
      let required := !s.inFlow && s.indent == (c.column : Int)
      { s with place := some ⟨s.tokens.size, required, c.index, c.line, c.column⟩ }
  else .ok s

/-- A key ends on its line, within 1024 characters. -/
def isStale (s : Scanner) (p : KeyPlace) : Bool :=
  p.line != s.cursor.line || decide (p.index + 1024 < s.cursor.index)

/-- A place that a key can no longer start at is dropped; a key that has to be there is a fault. -/
def refresh (s : Scanner) (p : Option KeyPlace) : Except Refusal (Option KeyPlace) :=
  match p with
  | some place =>
    if s.isStale place then (if place.required then .error s.cursor.refusal else .ok none) else .ok p
  | none => .ok none

def dropStale (s : Scanner) : Except Refusal Scanner := do
  let place ← s.refresh s.place
  let outerPlaces ← s.outerPlaces.mapM s.refresh
  return { s with place := place, outerPlaces := outerPlaces }

def insert (s : Scanner) (place : Nat) (t : Token) : Scanner :=
  { s with tokens := s.tokens.toList.take place ++ t :: s.tokens.toList.drop place |>.toArray }

/-- How many tokens stand before all places where a key may have started. -/
def settledCount (s : Scanner) : Nat :=
  (s.place :: s.outerPlaces).foldl (fun n p => (p.map KeyPlace.token).elim n (min n)) s.tokens.size

def settle (s : Scanner) : Scanner :=
  { s with settled := s.settled ++ Array.replicate (s.settledCount - s.settled.size) s.cursor.seen }

/-- The tokens that were settled before the text was looked at from a place on. -/
def settledBefore (s : Scanner) (place : Nat) : List Token :=
  s.tokens.toList.take (s.settled.toList.takeWhile (· < place)).length

end Scanner

end Ostinato.Yaml
