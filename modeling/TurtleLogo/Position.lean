import TurtleLogo.Text.Rune

/-!
Places in a source text. The offset counts bytes from zero; lines and columns count
from one, and columns count runes.
-/
namespace TurtleLogo
open Text

structure Position where
  offset : Nat
  line : Nat
  column : Nat
  deriving DecidableEq, Repr

namespace Position

def start : Position := ⟨0, 1, 1⟩

/-- No place of a text: lines count from one. -/
def nowhere : Position := ⟨0, 0, 0⟩

def afterRune (p : Position) (piece : Rune × Bytes) : Position :=
  if piece.1 == newline.toNat then ⟨p.offset + piece.2.length, p.line + 1, 1⟩
  else ⟨p.offset + piece.2.length, p.line, p.column + 1⟩

def after (p : Position) (text : Bytes) : Position := (runePieces text).foldl afterRune p

end Position
end TurtleLogo
