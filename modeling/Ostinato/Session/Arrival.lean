import Ostinato.Number.Binary64
import Ostinato.Text.Utf8

/-!
# Arrival of texts

A text file is read piece by piece, and each piece is decoded by itself: bytes that begin a character at its
end wait for the next piece. The characters are passed on in blocks, the first two of them together. What is
made of the text can end before a piece that cannot be decoded is read.
-/

namespace Ostinato

/-- What comes of the bytes of a text file. -/
inductive Arrival where
  | whole (text : List Char)
  /-- Some bytes cannot be decoded; only the text before them was passed on. -/
  | broken (passed : List Char) (fault : Utf8.Fault)
deriving DecidableEq, Repr

namespace Arrival

/-- The characters of a text with each end of line as a line feed. -/
def withLineFeeds : List Char → List Char
  | [] => []
  | '\r' :: '\n' :: rest => '\n' :: withLineFeeds rest
  | c :: rest => (if c = '\r' then '\n' else c) :: withLineFeeds rest

/-- The fewest bytes that a piece may have if more of them are left. -/
def leastPiece : Nat := 8192

def blockSize : Nat := 4096

/-- A file in the middle of its reading. -/
structure Reading where
  /-- The characters so far. -/
  chars : List Char
  /-- The bytes of a character that the last piece did not end. -/
  kept : List UInt8
  /-- The bytes of the last piece. -/
  lastBytes : Nat
  /-- The characters that the last piece brought. -/
  lastChars : Nat

namespace Reading

def start : Reading := ⟨[], [], 0, 0⟩

/-- The characters that can be passed on. A carriage return at the end waits for the one after it, with
which it may be one end of line. -/
def ready (r : Reading) : List Char :=
  withLineFeeds (if r.chars.getLast? = some '\r' then r.chars.dropLast else r.chars)

/-- What was passed on: all full blocks, once there are two of them. -/
def passed (r : Reading) : List Char :=
  let blocks := r.ready.length / blockSize
  if blocks < 2 then [] else r.ready.take (blocks * blockSize)

/-- How many bytes are asked for. They suffice for the rest of a block if each character is as long as those
of the last piece were. -/
def pieceSize (r : Reading) : Nat :=
  let width := Binary64.ofRat ((r.lastBytes : Rat) / r.lastChars)
  let wanted := blockSize - r.ready.length % blockSize
  match (width.mul (.ofInt wanted)).floor with
  | .ok size => max leastPiece size.toNat
  | .error _ => leastPiece

theorem leastPiece_le_pieceSize (r : Reading) : leastPiece ≤ r.pieceSize := by
  unfold pieceSize
  dsimp only
  split
  · exact Nat.le_max_left _ _
  · exact Nat.le_refl _

/-- The reading after a piece that was decoded to characters. -/
def after (r : Reading) (size : Nat) (cs : List Char) (kept : List UInt8) : Reading :=
  let next : Reading := ⟨r.chars ++ cs, kept, size, 0⟩
  { next with lastChars := next.ready.length - r.ready.length }

/-- Reads the bytes that are left. -/
def finish (r : Reading) : List UInt8 → Arrival
  | [] =>
    match r.kept with
    | [] => .whole (withLineFeeds r.chars)
    | b :: rest => .broken r.passed (Utf8.cutShort b rest)
  | b :: rest =>
    let piece := (b :: rest).take r.pieceSize
    match Utf8.decode (r.kept ++ piece) with
    | .error fault => .broken r.passed fault
    | .ok (cs, kept) => (r.after piece.length cs kept).finish ((b :: rest).drop r.pieceSize)
termination_by left => left.length
decreasing_by
  have positive : 0 < leastPiece := by decide
  have size := r.leastPiece_le_pieceSize
  rw [List.length_drop, List.length_cons]
  omega

end Reading

def ofBytes (bytes : List UInt8) : Arrival := Reading.start.finish bytes

end Arrival

end Ostinato
