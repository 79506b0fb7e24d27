import Ostinato.Harmony.Numeral
import Ostinato.Text.Blank

/-!
# Chord symbols

A chord symbol is a degree in Roman letters of any case, followed by the quality of the chord, as in
`I7`, `vi` and `bVII`. A numeral in lower case stands for a minor chord.
-/

namespace Ostinato

/-- A chord symbol in its parts, as written. -/
structure ChordSymbol where
  accidental : List Char
  numeral : Numeral
  letters : List Char
  suffix : List Char
deriving DecidableEq, Repr

namespace ChordSymbol

/-! ### Letters in any case -/

/-- Whether a character is a form of an upper-case letter. The dotless and the dotted `i` are forms of
`I`. -/
def isForm (letter c : Char) : Bool :=
  if letter = 'I' then c == 'I' || c == 'i' || c == 'ı' || c == 'İ'
  else if letter = 'V' then c == 'V' || c == 'v'
  else c == letter

/-- The upper case of a letter of a numeral. The dotted `İ` is upper case already. -/
def upper (c : Char) : Char :=
  if c = 'i' ∨ c = 'ı' then 'I' else if c = 'v' then 'V' else c

def isLower (c : Char) : Bool := c == 'i' || c == 'ı' || c == 'v'

def isAccidental (c : Char) : Bool := c == 'b' || c == 'B' || c == '#'

/-! ### Reading -/

/-- The accidental in front of a text, and the rest. -/
def takeAccidental : List Char → List Char × List Char
  | [] => ([], [])
  | c :: cs => if isAccidental c then ([c], cs) else ([], c :: cs)

/-- Reads the characters of a symbol. A line feed is no part of a symbol. -/
def ofChars? (cs : List Char) : Option ChordSymbol :=
  let (accidental, body) := takeAccidental cs
  match Numeral.leading? isForm body with
  | none => none
  | some numeral =>
    let width := numeral.letters.length
    if body.contains '\n' then none
    else some ⟨accidental, numeral, body.take width, body.drop width⟩

/-- Reads a symbol, without the blanks around it. -/
def read? (s : String) : Option ChordSymbol := ofChars? (Text.strip Text.isBlank s.toList)

/-! ### Degree and quality -/

/-- The degree of a chord: the accidental as written, and the numeral in upper case. -/
def degree (c : ChordSymbol) : String := String.ofList (c.accidental ++ c.letters.map upper)

/-- Whether a suffix tells by itself that the chord is minor or diminished. -/
def tellsMinor : List Char → Bool
  | 'm' :: _ => true
  | 'd' :: 'i' :: 'm' :: _ => true
  | '°' :: _ => true
  | _ => false

/-- The quality of a chord: the suffix, after an `m` when only the case of the numeral tells minor. -/
def quality (c : ChordSymbol) : String :=
  String.ofList (if c.letters.all isLower && !tellsMinor c.suffix then 'm' :: c.suffix else c.suffix)

end ChordSymbol

/-! ### Roots -/

/-- The degree of a chord symbol, or the symbol itself if it has no root. -/
def chordDegree (symbol : String) : String :=
  match ChordSymbol.read? symbol with
  | some c => c.degree
  | none => symbol

/-- The degree that a chord is built on, without its accidental; the first one if that cannot be
told. -/
def chordRoot (symbol : String) : Numeral :=
  match ChordSymbol.read? symbol with
  | none => .one
  | some c =>
    let plain := c.degree.toList.dropWhile fun x => x == 'b' || x == '#'
    (Numeral.all.find? fun n => n.letters == plain).getD .one

def rootless (symbols : List String) : List String :=
  symbols.filter fun s => (ChordSymbol.read? s).isNone

/-- The Arabic degree a fifth above an Arabic degree, and the fifth of the key for any other text. -/
def fifthAbove (degree : String) : String :=
  match Numeral.ofArabic? degree with
  | some n => n.fifth.arabic
  | none => "5"

end Ostinato
