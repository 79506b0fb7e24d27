/-!
# Pieces of text

A text is a piece of another one if it occurs there without a gap.
-/

namespace Ostinato.Text

/-- Whether a text occurs in another one. The empty text occurs everywhere. -/
def isPiece (piece whole : String) : Bool :=
  @decide (piece.toList <:+: whole.toList) (List.instDecidableIsInfixOfDecidableEq _ _)

theorem isPiece_iff {piece whole : String} :
    isPiece piece whole = true ↔ piece.toList <:+: whole.toList := by
  simp [isPiece]

end Ostinato.Text
