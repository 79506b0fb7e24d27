import Ostinato.Record.Codec

/-!
# Settings

The value of a tunable parameter is a whole number or a text.
-/

namespace Ostinato

inductive Setting where
  | number (value : Int)
  | text (value : String)
deriving DecidableEq, Repr

namespace Setting

def datum : Setting → Datum
  | number n => .int n
  | text s => .text s

/-- Texts stay texts. Anything else is read as an integer; if it is none, it is no text either. -/
def codec : Codec Setting where
  decode
    | .text s => .ok (text s)
    | d =>
      match Codec.int.decode d with
      | .ok n => .ok (number n)
      | .faulty faults =>
        .faulty (faults.map (fun f => { f with path := .key "int" :: f.path })
          ++ [⟨[.key "str"], .notText, d⟩])
  encode := datum

end Setting

end Ostinato
