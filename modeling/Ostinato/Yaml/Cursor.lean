import Ostinato.Yaml.Fault

/-!
# Cursors

A place in a YAML text: what is still to come, with the line and the column for the layout rules. A text is
asked for no earlier than it is looked at, so a cursor knows how far that was.
-/

namespace Ostinato.Yaml

def isBreak (c : Char) : Bool :=
  c == '\n' || c == '\r' || c.toNat == 0x85 || c.toNat == 0x2028 || c.toNat == 0x2029

/-- Whether a character, or the end, separates tokens. -/
def separates : Option Char → Bool
  | none => true
  | some c => c == ' ' || c == '\t' || isBreak c

/-- Whether a character ends a line, or there is none left. -/
def endsLine : Option Char → Bool
  | none => true
  | some c => isBreak c

/-- Whether a character may stand in a document at all. -/
def isAllowed (c : Char) : Bool :=
  let n := c.toNat
  n == 9 || n == 10 || n == 13 || (0x20 ≤ n && n ≤ 0x7E) || n == 0x85 || (0xA0 ≤ n && n ≤ 0xD7FF)
    || (0xE000 ≤ n && n ≤ 0xFFFD) || 0x10000 ≤ n

structure Cursor where
  rest : List Char
  index : Nat
  line : Nat
  column : Nat
  /-- The farthest place that was looked at. -/
  seen : Nat

namespace Cursor

def start (cs : List Char) : Cursor := ⟨cs, 0, 0, 0, 0⟩

def peek (c : Cursor) : Option Char := c.rest.head?

def peekAt (c : Cursor) (n : Nat) : Option Char := c.rest[n]?

/-- Looks at the character so many places ahead. -/
def look (c : Cursor) (n : Nat) : Cursor := { c with seen := max c.seen (c.index + n) }

/-- Passes one character, with a look at the one after it. A byte order mark takes no column. -/
def next (c : Cursor) : Cursor :=
  let seen := (c.look 1).seen
  match c.rest with
  | [] => c
  | x :: rest =>
    if isBreak x then ⟨rest, c.index + 1, c.line + 1, 0, seen⟩
    else if x.toNat = 0xFEFF then ⟨rest, c.index + 1, c.line, c.column, seen⟩
    else ⟨rest, c.index + 1, c.line, c.column + 1, seen⟩

def pass : Nat → Cursor → Cursor
  | 0, c => c
  | n + 1, c => pass n c.next

/-- The characters of a class that come next, and the place after them. -/
def takeWhile (c : Cursor) (p : Char → Bool) : List Char × Cursor :=
  let taken := c.rest.takeWhile p
  (taken, pass taken.length c)

def skipWhile (c : Cursor) (p : Char → Bool) : Cursor := (c.takeWhile p).2

/-- Passes a line break, if there is one. A break is kept as a line feed unless it separates lines or
paragraphs. -/
def lineBreak? (c : Cursor) : Option (Char × Cursor) :=
  match c.rest with
  | x :: _ =>
    if x.toNat = 0x2028 ∨ x.toNat = 0x2029 then some (x, c.next)
    else if isBreak x then some ('\n', c.next)
    else none
  | [] => none

def startsWith (c : Cursor) (s : String) : Bool := s.toList.isPrefixOf c.rest

/-- Whether three marks come next. -/
def startsMarker (c : Cursor) : Bool := c.startsWith "---" || c.startsWith "..."

/-- Whether a line of three marks comes next, as between documents. -/
def atMarker (c : Cursor) : Bool := c.startsMarker && separates (c.peekAt 3)

/-- Looks for a line of three marks. What follows the marks counts only after all three of them. -/
def lookForMarker (c : Cursor) : Cursor := c.look (if c.startsMarker then 3 else 2)

/-- The text breaks the rules here. -/
def refusal (c : Cursor) : Refusal := ⟨.malformed, c.seen⟩

end Cursor

end Ostinato.Yaml
