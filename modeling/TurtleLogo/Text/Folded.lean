import TurtleLogo.Text.Lower

/-!
A text in lower case, for a comparison that takes no notice of case. It is made piece by
piece, and long texts lose characters on the way: a character that does not fit into the
space there is for the result is dropped, and only then is the space made larger. Pieces
are cut by length, so that a character across a cut counts as invalid bytes.
-/
namespace TurtleLogo.Text

def foldingPiece : Nat := 128

/-- What was made of a piece: the result, how many bytes of the piece it stands for, and whether it
    ends before a character that did not fit. -/
structure Folding where
  made : Bytes
  taken : Nat
  cut : Bool
  deriving DecidableEq, Repr

/-- The lower case of a piece as far as there is room. A replacement rune is taken for an invalid
    byte, also where it is written in three, so that the other two are met again. -/
def foldInto (room : Nat) : List Rune → Folding
  | [] => ⟨[], 0, false⟩
  | r :: rest =>
    let width := if r == replacement then 1 else (encode r).length
    let low := encode (loweredRune r)
    if room < low.length then ⟨[], width, true⟩
    else
      let others := foldInto (room - low.length) rest
      ⟨low ++ others.made, width + others.taken, others.cut⟩

def foldPiece (room : Nat) (text : Bytes) : Folding :=
  foldInto room (runes (text.take foldingPiece))

def enlarged (space : Nat) : Nat :=
  if space ≤ 32 then 64 else if space ≤ 256 then 2 * space else space + space / 2

def foldRest : Nat → (space : Nat) → (made rest : Bytes) → Bytes
  | 0, _, made, _ => made
  | n + 1, space, made, rest =>
    if rest.isEmpty then made
    else
      let piece := foldPiece (space - made.length) rest
      foldRest n (if piece.cut && piece.made.isEmpty then enlarged space else space)
        (made ++ piece.made) (rest.drop piece.taken)

/-- Leaves the pieces that are in lower case where they are. The first other piece is put behind
    them, into a space that holds the whole text if need be. -/
def foldFrom (text : Bytes) : Nat → (same : Nat) → Bytes
  | 0, _ => text
  | n + 1, same =>
    let rest := text.drop same
    let piece := foldPiece foldingPiece rest
    if rest.isEmpty then text
    else if piece.made == rest.take piece.taken && !piece.cut then
      foldFrom text n (same + piece.taken)
    else
      let made := text.take same ++ piece.made
      let space :=
        if foldingPiece < made.length then text.length + piece.made.length - piece.taken
        else foldingPiece
      foldRest (text.length + 1) space made (rest.drop piece.taken)

def folded (text : Bytes) : Bytes := foldFrom text (text.length + 1) 0

end TurtleLogo.Text
