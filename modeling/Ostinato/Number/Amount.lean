import Ostinato.Number.Decimal

/-!
# Amounts

Beats, lengths and scripted draws are given either as whole numbers of any size or as binary64
numbers. An amount keeps the form that it was given in.
-/

namespace Ostinato

inductive Amount where
  | whole (value : Int)
  | real (value : Binary64)
deriving DecidableEq, Repr

namespace Amount

/-- The binary64 number of an amount; a whole number has to be in range. -/
def toReal : Amount → Except NumberFault Binary64
  | whole n => Binary64.ofInt? n
  | real x => .ok x

def truncate : Amount → Except NumberFault Int
  | whole n => .ok n
  | real x => x.truncate

/-- Whether an amount is below a binary64 number. Whole numbers are compared unrounded. -/
def below (a : Amount) (x : Binary64) : Bool :=
  match a with
  | whole n => x.aboveInt n
  | real y => y.lt x

def atLeast (a : Amount) (n : Int) : Bool :=
  match a with
  | whole m => decide (n ≤ m)
  | real x => x.atLeastInt n

def atMost (a : Amount) (n : Int) : Bool :=
  match a with
  | whole m => decide (m ≤ n)
  | real x => x.atMostInt n

def ofReal (x : Binary64) : Amount :=
  match x.toInt? with
  | some n => whole n
  | none => real x

end Amount

end Ostinato
