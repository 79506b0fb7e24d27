import Ostinato.Number.Rounding
import Ostinato.Number.Fault

/-!
# Binary64 numbers

Beats, durations, weights and random draws are binary64 numbers. A finite one is held as the exact
rational that it stands for, so that an operation is the exact operation followed by one rounding.
-/

namespace Ostinato

/-- A binary64 number. Only the zero below the positive numbers is `finite 0`. -/
inductive Binary64 where
  | nan
  | infinity (negative : Bool)
  | negativeZero
  | finite (value : Rat)
deriving DecidableEq, Repr, Inhabited

namespace Binary64

/-! ### Rounding -/

/-- The nearest binary64 number; a result that vanishes keeps its sign. -/
def ofRat (q : Rat) : Binary64 :=
  let m := Rounding.toGrid q.num.natAbs q.den
  if q.num = 0 then finite 0
  else if Rounding.overflowBound ≤ m then infinity (decide (q.num < 0))
  else if q.num < 0 then (if m = 0 then negativeZero else finite (-m))
  else finite m

def ofInt (n : Int) : Binary64 := ofRat (n : Rat)

/-- A whole number as a binary64 number, if it is in range. -/
def ofInt? (n : Int) : Except NumberFault Binary64 :=
  match ofInt n with
  | infinity _ => .error .integerTooLarge
  | x => .ok x

/-- The rational that a finite number stands for. -/
def toRat? : Binary64 → Option Rat
  | nan => none
  | infinity _ => none
  | negativeZero => some 0
  | finite q => some q

@[simp] theorem toRat?_finite (q : Rat) : (finite q).toRat? = some q := rfl
@[simp] theorem toRat?_negativeZero : negativeZero.toRat? = some 0 := rfl

def quotient (n d : Int) : Except NumberFault Binary64 :=
  if d = 0 then .error .divisionByZero
  else match ofRat ((n : Rat) / (d : Rat)) with
    | infinity _ => .error .quotientTooLarge
    | x => .ok x

/-! ### Order -/

/-- The place of a number on the extended line: before, on or after the rationals. -/
def place : Binary64 → Option (Int × Rat)
  | nan => none
  | infinity true => some (-1, 0)
  | infinity false => some (1, 0)
  | negativeZero => some (0, 0)
  | finite q => some (0, q)

/-- Strictly below; never with a value that is not a number. -/
def lt (x y : Binary64) : Bool :=
  match x.place, y.place with
  | some a, some b => decide (a.1 < b.1) || (decide (a.1 = b.1) && decide (a.2 < b.2))
  | _, _ => false

/-- At most; never with a value that is not a number. -/
def le (x y : Binary64) : Bool :=
  match x.place, y.place with
  | some a, some b => decide (a.1 < b.1) || (decide (a.1 = b.1) && decide (a.2 ≤ b.2))
  | _, _ => false

/-- Numeric equality: the two zeros are equal, and nothing equals a value that is not a number. -/
def same (x y : Binary64) : Bool :=
  match x.place, y.place with
  | some a, some b => decide (a = b)
  | _, _ => false

/-- The place of a whole number on the extended line; whole numbers are compared unrounded. -/
def atLeastInt (x : Binary64) (n : Int) : Bool :=
  match x.place with
  | some a => decide (0 < a.1) || (decide (a.1 = 0) && decide ((n : Rat) ≤ a.2))
  | none => false

def atMostInt (x : Binary64) (n : Int) : Bool :=
  match x.place with
  | some a => decide (a.1 < 0) || (decide (a.1 = 0) && decide (a.2 ≤ (n : Rat)))
  | none => false

def aboveInt (x : Binary64) (n : Int) : Bool :=
  match x.place with
  | some a => decide (0 < a.1) || (decide (a.1 = 0) && decide ((n : Rat) < a.2))
  | none => false

/-- The place of a number in a sorted sequence; what is not a number comes last. -/
def rank (x : Binary64) : Int × Rat := x.place.getD (2, 0)

/-- The order of sorted sequences: every two numbers are in it, one way or the other. -/
def notAfter (x y : Binary64) : Bool :=
  decide (x.rank.1 < y.rank.1) || (decide (x.rank.1 = y.rank.1) && decide (x.rank.2 ≤ y.rank.2))

/-! ### Arithmetic -/

/-- Whether the sign is the negative one. -/
def isNegative : Binary64 → Bool
  | nan => false
  | infinity s => s
  | negativeZero => true
  | finite q => decide (q < 0)

def zero (negative : Bool) : Binary64 := if negative then negativeZero else finite 0

def neg : Binary64 → Binary64
  | nan => nan
  | infinity s => infinity (!s)
  | negativeZero => finite 0
  | finite q => if q = 0 then negativeZero else finite (-q)

/-- The sum; two opposite infinities have none, and two zeros below zero give one. -/
def add : Binary64 → Binary64 → Binary64
  | nan, _ => nan
  | _, nan => nan
  | infinity s, infinity t => if s = t then infinity s else nan
  | infinity s, _ => infinity s
  | _, infinity t => infinity t
  | negativeZero, negativeZero => negativeZero
  | negativeZero, finite q => ofRat q
  | finite p, negativeZero => ofRat p
  | finite p, finite q => ofRat (p + q)

def sub (x y : Binary64) : Binary64 := add x (neg y)

/-- The product; an infinity times zero has none, and a product that is zero keeps its sign. -/
def mul (x y : Binary64) : Binary64 :=
  let s := xor x.isNegative y.isNegative
  match x, y with
  | nan, _ => nan
  | _, nan => nan
  | infinity _, y => if y.toRat? = some 0 then nan else infinity s
  | x, infinity _ => if x.toRat? = some 0 then nan else infinity s
  | x, y =>
    match x.toRat?, y.toRat? with
    | some p, some q => if p * q = 0 then zero s else ofRat (p * q)
    | _, _ => nan

/-- The part of a number above its greatest multiple of `n`, rounded; `n` is positive. -/
def floorMod (x : Binary64) (n : Nat) : Binary64 :=
  match x.toRat? with
  | some q => ofRat (q - (q / n).floor * n)
  | none => nan

/-! ### Whole numbers -/

/-- The whole number that a number is, if it is one. -/
def toInt? (x : Binary64) : Option Int :=
  match x.toRat? with
  | some q => if q.den = 1 then some q.num else none
  | none => none

/-- Applies a rounding to a whole number, which infinities and non-numbers do not have. -/
def toIntBy (round : Rat → Int) : Binary64 → Except NumberFault Int
  | nan => .error .nanToInteger
  | infinity _ => .error .infinityToInteger
  | negativeZero => .ok (round 0)
  | finite q => .ok (round q)

/-- The greatest whole number below or at a number. -/
def floor : Binary64 → Except NumberFault Int := toIntBy Rat.floor

def truncate : Binary64 → Except NumberFault Int :=
  toIntBy fun q => if 0 ≤ q then q.floor else -(-q).floor

/-- The nearest whole number, a half going up. The half is added in binary64. -/
def roundHalfUp (x : Binary64) : Except NumberFault Int :=
  (add x (ofRat (1 / 2))).floor

end Binary64

end Ostinato
