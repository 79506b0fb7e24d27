/-!
# Blank characters

Two classes are in use: white space as the Unicode property has it, which surrounds written numbers
of a record, and the wider class of blanks, with the four information separators, which surrounds
chord symbols.
-/

namespace Ostinato.Text

/-- The Unicode property of white space. -/
def isWhiteSpace (c : Char) : Bool :=
  let n := c.toNat
  (9 ≤ n && n ≤ 13) || n == 0x20 || n == 0x85 || n == 0xA0 || n == 0x1680
    || (0x2000 ≤ n && n ≤ 0x200A) || n == 0x2028 || n == 0x2029 || n == 0x202F
    || n == 0x205F || n == 0x3000

/-- White space and the information separators `U+001C` to `U+001F`. -/
def isBlank (c : Char) : Bool :=
  isWhiteSpace c || (0x1C ≤ c.toNat && c.toNat ≤ 0x1F)

/-- The characters without those of a class at both ends. -/
def strip (drop : Char → Bool) (cs : List Char) : List Char :=
  ((cs.dropWhile drop).reverse.dropWhile drop).reverse

theorem strip_nil (drop : Char → Bool) : strip drop [] = [] := rfl

end Ostinato.Text
