/-!
# Roman numerals

The seven degrees of the major scale, their letters, their distance from the key root and their
Arabic numbers.
-/

namespace Ostinato

/-- A degree of the major scale. -/
inductive Numeral where
  | one
  | two
  | three
  | four
  | five
  | six
  | seven
deriving DecidableEq, Repr, Inhabited

namespace Numeral

/-- All degrees, in ascending order. -/
def all : List Numeral := [one, two, three, four, five, six, seven]

/-- The letters of a numeral, in upper case. -/
def letters : Numeral → List Char
  | one => ['I']
  | two => ['I', 'I']
  | three => ['I', 'I', 'I']
  | four => ['I', 'V']
  | five => ['V']
  | six => ['V', 'I']
  | seven => ['V', 'I', 'I']

def semitones : Numeral → Nat
  | one => 0
  | two => 2
  | three => 4
  | four => 5
  | five => 7
  | six => 9
  | seven => 11

theorem semitones_lt (n : Numeral) : n.semitones < 12 := by cases n <;> decide

/-- The Arabic number of a degree, as a text. -/
def arabic : Numeral → String
  | one => "1"
  | two => "2"
  | three => "3"
  | four => "4"
  | five => "5"
  | six => "6"
  | seven => "7"

/-- The degree a diatonic fifth above. -/
def fifth : Numeral → Numeral
  | one => five
  | two => six
  | three => seven
  | four => one
  | five => two
  | six => three
  | seven => four

def ofArabic? (number : String) : Option Numeral := all.find? fun n => n.arabic == number

/-! ### Leading numerals -/

/-- Whether a text starts with the given letters, letter by letter. -/
def begins (same : Char → Char → Bool) : List Char → List Char → Bool
  | [], _ => true
  | _ :: _, [] => false
  | letter :: letters, c :: cs => same letter c && begins same letters cs

/-- All numerals, each one before those that it starts with. -/
def longestFirst : List Numeral := [seven, six, four, five, three, two, one]

def leading? (same : Char → Char → Bool) (cs : List Char) : Option Numeral :=
  longestFirst.find? fun n => begins same n.letters cs

theorem begins_of_leading? {same : Char → Char → Bool} {cs : List Char} {n : Numeral}
    (h : leading? same cs = some n) : begins same n.letters cs = true := by
  simpa using List.find?_some h

end Numeral

end Ostinato
