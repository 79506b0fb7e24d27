import Ostinato.Failure
import Ostinato.Number.Amount
import Ostinato.Random.Twister

/-!
# Draws

A random source is a seeded generator, or a script of amounts that are taken one after another and a
log of what was asked for. A draw goes on with the source also where it fails.
-/

namespace Ostinato

/-- A question to a random source. -/
inductive Call where
  | fraction
  | below (count : Int)
deriving DecidableEq, Repr

def Call.text : Call → String
  | fraction => "random"
  | below count => s!"randrange({count})"

inductive Source where
  | seeded (generator : Twister)
  | scripted (remaining : List Amount) (log : List Call)
deriving Repr

/-- What was asked of a scripted source, in order. -/
def Source.log? : Source → Option (List Call)
  | seeded _ => none
  | scripted _ log => some log

/-- A computation that draws from a source. -/
abbrev Draw (α : Type) := ExceptT Failure (StateM Source) α

namespace Draw

/-- The result of a draw, and the source after it. -/
def runFrom {α : Type} (d : Draw α) (s : Source) : Except Failure α × Source := d.run.run s

/-- A number from 0 to below 1; from a script the next amount as it is. -/
def fraction : Draw Amount := ExceptT.mk fun (s : Source) =>
  match s with
  | .seeded generator =>
    let (place, generator') := generator.fraction
    (.ok (.real (.finite (mkRat place (Nat.pow 2 53)))), .seeded generator')
  | .scripted [] log => (.error .scriptExhausted, .scripted [] (log ++ [.fraction]))
  | .scripted (a :: rest) log => (.ok a, .scripted rest (log ++ [.fraction]))

/-- A whole number from 0 to below a count; from a script the next amount without its fraction, brought
into this range. -/
def below (count : Int) : Draw Nat := ExceptT.mk fun (s : Source) =>
  match s with
  | .seeded generator =>
    if count ≤ 0 then (.error .nothingToDraw, s)
    else
      let (value, generator') := generator.below count.toNat
      (.ok value, .seeded generator')
  | .scripted [] log => (.error .scriptExhausted, .scripted [] (log ++ [.below count]))
  | .scripted (a :: rest) log =>
    (Failure.ofNumber (a.truncate.map fun n => (n.fmod count).toNat),
      .scripted rest (log ++ [.below count]))

def ofResult {α : Type} (r : Except Failure α) : Draw α := ExceptT.mk fun (s : Source) => (r, s)

end Draw

end Ostinato
