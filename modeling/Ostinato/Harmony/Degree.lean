import Ostinato.Harmony.Pitch
import Ostinato.Number.Fault
import Ostinato.Text.Digit

/-!
# Degree labels

A degree label names a pitch relative to the key: an accidental, a numeral in upper case, and a signed
offset in semitones, as in `bVII` and `IV+1`. Texts that are no label sound as the key root.
-/

namespace Ostinato

inductive Accidental where
  | natural
  | flat
  | sharp
deriving DecidableEq, Repr

namespace Accidental

def shift : Accidental → Int
  | natural => 0
  | flat => -1
  | sharp => 1

def letters : Accidental → List Char
  | natural => []
  | flat => ['b']
  | sharp => ['#']

/-- The accidental in front of a text, and the rest. -/
def take : List Char → Accidental × List Char
  | 'b' :: cs => (flat, cs)
  | '#' :: cs => (sharp, cs)
  | cs => (natural, cs)

theorem letters_take (cs : List Char) : (take cs).1.letters ++ (take cs).2 = cs := by
  unfold take
  split <;> rfl

end Accidental

/-- A signed offset as it is written. -/
structure WrittenOffset where
  negative : Bool
  digits : List Char
deriving DecidableEq, Repr

namespace WrittenOffset

def letters (o : WrittenOffset) : List Char := (if o.negative then '-' else '+') :: o.digits

def ofInt (n : Int) : WrittenOffset := ⟨decide (n < 0), Nat.toDigits 10 n.natAbs⟩

/-- The semitones of an offset; there is a limit to the digits that are read. -/
def semitones (o : WrittenOffset) : Except NumberFault Int :=
  if NumberFault.digitLimit < o.digits.length then .error (.tooManyDigits o.digits.length)
  else .ok (if o.negative then -(Text.digitsValue o.digits : Int) else Text.digitsValue o.digits)

end WrittenOffset

structure DegreeLabel where
  accidental : Accidental
  numeral : Numeral
  offset : Option WrittenOffset
deriving DecidableEq, Repr

namespace DegreeLabel

/-! ### Text -/

def letters (d : DegreeLabel) : List Char :=
  d.accidental.letters ++ d.numeral.letters ++ (d.offset.map WrittenOffset.letters).getD []

def text (d : DegreeLabel) : String := String.ofList d.letters

/-- An offset at the end of a label: nothing, or a sign and digits; one line feed may follow. -/
def readOffset? (cs : List Char) : Option (Option WrittenOffset) :=
  let closes (rest : List Char) : Bool := rest == [] || rest == ['\n']
  match cs with
  | '+' :: cs =>
    let digits := cs.takeWhile Text.isDigit
    if !digits.isEmpty && closes (cs.dropWhile Text.isDigit) then some (some ⟨false, digits⟩) else none
  | '-' :: cs =>
    let digits := cs.takeWhile Text.isDigit
    if !digits.isEmpty && closes (cs.dropWhile Text.isDigit) then some (some ⟨true, digits⟩) else none
  | cs => if closes cs then some none else none

/-- The label that a text is, letter by letter. -/
def read? (s : String) : Option DegreeLabel :=
  let (accidental, body) := Accidental.take s.toList
  match Numeral.leading? (· == ·) body with
  | none => none
  | some numeral =>
    (readOffset? (body.drop numeral.letters.length)).map fun offset => ⟨accidental, numeral, offset⟩

/-! ### Pitch -/

/-- The pitch of a label: its degree, moved by the accidental and the offset. -/
def pitch (d : DegreeLabel) : Except NumberFault PitchClass :=
  let base := (d.numeral.semitones : Int) + d.accidental.shift
  match d.offset with
  | none => .ok (.ofInt base)
  | some offset => offset.semitones.map fun n => .ofInt (base + n)

end DegreeLabel

def isDegreeLabel (s : String) : Bool := (DegreeLabel.read? s).isSome

/-- The pitch of a text: the pitch of a label, and the key root for any other text. -/
def degreePitch (s : String) : Except NumberFault PitchClass :=
  match DegreeLabel.read? s with
  | some d => d.pitch
  | none => .ok PitchClass.keyRoot

namespace PitchClass

/-- The offset between two pitches that lies above -6 and not above 6. -/
def offsetFrom (base p : PitchClass) : Int :=
  let up := (p.val : Int) - base.val
  if 6 < up then up - 12 else if up ≤ -6 then up + 12 else up

/-- The label of a pitch: its degree, or the nearest degree with the offset from it. -/
def label (p : PitchClass) : DegreeLabel :=
  let n := p.nearest
  ⟨.natural, n, if n.pitch = p then none else some (.ofInt (offsetFrom n.pitch p))⟩

def degree (p : PitchClass) : String := p.label.text

end PitchClass

end Ostinato
