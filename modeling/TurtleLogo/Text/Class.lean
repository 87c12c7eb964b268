import TurtleLogo.Text.Rune

/-!
White space and trimming. The ranges are those of the Unicode property White_Space.
-/
namespace TurtleLogo.Text

def inRanges (ranges : List (Rune × Rune)) (r : Rune) : Bool :=
  ranges.any fun (low, high) => low ≤ r && r ≤ high

def blankRanges : List (Rune × Rune) :=
  [(0x9, 0xD), (0x20, 0x20), (0x85, 0x85), (0xA0, 0xA0), (0x1680, 0x1680), (0x2000, 0x200A),
   (0x2028, 0x2029), (0x202F, 0x202F), (0x205F, 0x205F), (0x3000, 0x3000)]

def isBlank (r : Rune) : Bool := inRanges blankRanges r

/-- The text without the blank runes it begins with. A byte that is no UTF-8 is not blank. -/
def trimStart (text : Bytes) : Bytes :=
  ((runePieces text).dropWhile fun (r, _) => isBlank r).flatMap Prod.snd

def trimEnd (text : Bytes) : Bytes :=
  (((runePieces text).reverse.dropWhile fun (r, _) => isBlank r).reverse).flatMap Prod.snd

def trim (text : Bytes) : Bytes := trimEnd (trimStart text)

def wordsOf : List (Rune × Bytes) → List Bytes
  | [] => []
  | (r, bytes) :: rest =>
    if isBlank r then wordsOf rest
    else match rest, wordsOf rest with
      | (s, _) :: _, word :: words =>
        if isBlank s then bytes :: word :: words else (bytes ++ word) :: words
      | _, words => bytes :: words

def words (text : Bytes) : List Bytes := wordsOf (runePieces text)

end TurtleLogo.Text
