import Ostinato.Number.Binary64

/-!
# Decimal text of binary64 numbers

A number is written with the fewest digits that read back as the same number and, of those, the ones
nearest to it. Reading rounds the written decimal once.
-/

namespace Ostinato

/-- The decimal `digits * 10 ^ exponent`. -/
structure Decimal where
  digits : Nat
  exponent : Int
deriving DecidableEq, Repr

namespace Decimal

def tenPow (e : Int) : Rat :=
  if 0 ≤ e then (Nat.pow 10 e.toNat : Rat) else mkRat 1 (Nat.pow 10 (-e).toNat)

def toRat (d : Decimal) : Rat := d.digits * tenPow d.exponent

/-- How many decimal digits a natural number is written with. -/
def width (n : Nat) : Nat := (Nat.toDigits 10 n).length

/-! ### Reading -/

/-- The binary64 number nearest to a decimal. Exponents far outside the range are not expanded. -/
def toBinary64 (negative : Bool) (d : Decimal) : Binary64 :=
  let top := (width d.digits : Int) + d.exponent
  if d.digits = 0 then Binary64.zero negative
  else if 400 < top then .infinity negative
  else if top < -400 then Binary64.zero negative
  else Binary64.ofRat (if negative then -d.toRat else d.toRat)

/-! ### The shortest decimal -/

/-- The exponent of the greatest power of ten that is at most `q`, for positive `q`. -/
def log10Floor (q : Rat) : Int :=
  let k := (width q.num.natAbs : Int) - (width q.den : Int)
  if tenPow k ≤ q then k else k - 1

/-- Of the two decimals around `q` on the grid `10 ^ e`, the nearest one that reads back as `q`. -/
def onGrid? (q : Rat) (e : Int) : Option Decimal :=
  let low := (q / tenPow e).floor.toNat
  let readsBack (n : Nat) : Bool :=
    decide (Binary64.ofRat (toRat ⟨n, e⟩) = .finite q)
  let nearer := if q - toRat ⟨low, e⟩ ≤ toRat ⟨low + 1, e⟩ - q then [low, low + 1] else [low + 1, low]
  (nearer.find? readsBack).map (⟨·, e⟩)

/-- The decimal of fewest digits that reads back as the positive binary64 number `q`. -/
def shortest (q : Rat) : Decimal :=
  let k := log10Floor q
  match (List.range 17).findSome? fun (i : Nat) => onGrid? q (k - i) with
  | some d => d
  | none => ⟨(q / tenPow (k - 17)).floor.toNat, k - 17⟩

/-! ### Layout -/

/-- How a shortest decimal is laid out: the exponents of ten of the first digit that are written
positionally, and the least number of digits of a written exponent. -/
structure Layout where
  lowest : Int
  limit : Int
  exponentWidth : Nat

/-- Positional from `1e-4` up to below `1e16`; exponents have a sign and two digits at least. -/
def Layout.standard : Layout := ⟨-4, 16, 2⟩

def zeros (n : Nat) : String := String.ofList (List.replicate n '0')

def trimZeros (digits : List Char) : List Char :=
  (digits.reverse.dropWhile (· == '0')).reverse

/-- The text of a positive decimal. A positional text has a point with a digit on both sides. -/
def write (layout : Layout) (d : Decimal) : String :=
  let digits := trimZeros (Nat.toDigits 10 d.digits)
  let first := (width d.digits : Int) + d.exponent - 1
  if layout.lowest ≤ first ∧ first < layout.limit then
    if first < 0 then "0." ++ zeros (-first - 1).toNat ++ String.ofList digits
    else
      let whole := digits.take (first.toNat + 1)
      let fraction := digits.drop (first.toNat + 1)
      String.ofList whole ++ zeros (first.toNat + 1 - whole.length) ++ "."
        ++ (if fraction.isEmpty then "0" else String.ofList fraction)
  else
    let lead := String.ofList (digits.take 1)
    let rest := digits.drop 1
    let power := toString first.natAbs
    lead ++ (if rest.isEmpty then "" else "." ++ String.ofList rest) ++ "e"
      ++ (if first < 0 then "-" else "+") ++ zeros (layout.exponentWidth - power.length) ++ power

end Decimal

namespace Binary64

/-- The text of a number: always with a point or an exponent, unless it is not finite. -/
def text : Binary64 → String
  | nan => "nan"
  | infinity true => "-inf"
  | infinity false => "inf"
  | negativeZero => "-0.0"
  | finite q =>
    if q = 0 then "0.0"
    else if q < 0 then "-" ++ (Decimal.shortest (-q)).write .standard
    else (Decimal.shortest q).write .standard

/-- The text of a number in a report: a whole one is written as an integer, in full. -/
def brief (x : Binary64) : String :=
  match x.toInt? with
  | some n => toString n
  | none => x.text

end Binary64

end Ostinato
