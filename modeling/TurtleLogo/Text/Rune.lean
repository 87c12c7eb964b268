import TurtleLogo.Text.Bytes

/-!
Bytes read as UTF-8. A byte that begins no well-formed sequence is a rune of its
own, the replacement rune, so every text has runes and their widths add up to
its length.
-/
namespace TurtleLogo.Text

abbrev Rune := Nat

def replacement : Rune := 0xFFFD

structure Decoded where
  rune : Rune
  width : Nat
  deriving DecidableEq, Repr

def isTail (b : UInt8) : Bool := 0x80 ≤ b && b ≤ 0xBF

def tailBits (b : UInt8) : Nat := b.toNat % 64

/-- The bounds of the second byte, which exclude overlong forms, surrogates and
    values above the last code point. -/
def secondBounds (lead : UInt8) : UInt8 × UInt8 :=
  if lead == 0xE0 then (0xA0, 0xBF)
  else if lead == 0xED then (0x80, 0x9F)
  else if lead == 0xF0 then (0x90, 0xBF)
  else if lead == 0xF4 then (0x80, 0x8F)
  else (0x80, 0xBF)

def isSecond (lead b : UInt8) : Bool := (secondBounds lead).1 ≤ b && b ≤ (secondBounds lead).2

def sequence? : Bytes → Option Decoded
  | [] => none
  | a :: rest =>
    if a < 0x80 then some ⟨a.toNat, 1⟩
    else if 0xC2 ≤ a && a ≤ 0xDF then
      match rest with
      | b :: _ => if isTail b then some ⟨a.toNat % 32 * 64 + tailBits b, 2⟩ else none
      | _ => none
    else if 0xE0 ≤ a && a ≤ 0xEF then
      match rest with
      | b :: c :: _ =>
        if isSecond a b && isTail c then
          some ⟨(a.toNat % 16 * 64 + tailBits b) * 64 + tailBits c, 3⟩
        else none
      | _ => none
    else if 0xF0 ≤ a && a ≤ 0xF4 then
      match rest with
      | b :: c :: d :: _ =>
        if isSecond a b && isTail c && isTail d then
          some ⟨((a.toNat % 8 * 64 + tailBits b) * 64 + tailBits c) * 64 + tailBits d, 4⟩
        else none
      | _ => none
    else none

def firstRune (text : Bytes) : Decoded := (sequence? text).getD ⟨replacement, 1⟩

/-- The runes of a text after its first `skip` bytes, each with the bytes it is written in. -/
def runePiecesFrom : (skip : Nat) → Bytes → List (Rune × Bytes)
  | _, [] => []
  | skip + 1, _ :: rest => runePiecesFrom skip rest
  | 0, b :: rest =>
    let first := firstRune (b :: rest)
    (first.rune, (b :: rest).take first.width) :: runePiecesFrom (first.width - 1) rest

def runePieces (text : Bytes) : List (Rune × Bytes) := runePiecesFrom 0 text

def runes (text : Bytes) : List Rune := (runePieces text).map Prod.fst

def runeCount (text : Bytes) : Nat := (runePieces text).length

def isSurrogate (r : Rune) : Bool := 0xD800 ≤ r && r ≤ 0xDFFF

/-- The bytes of a rune; what is no code point is written as the replacement rune. -/
def encode (r : Rune) : Bytes :=
  if r < 0x80 then [r.toUInt8]
  else if r < 0x800 then [(0xC0 + r / 64).toUInt8, (0x80 + r % 64).toUInt8]
  else if isSurrogate r || 0x10FFFF < r then [0xEF, 0xBF, 0xBD]
  else if r < 0x10000 then
    [(0xE0 + r / 4096).toUInt8, (0x80 + r / 64 % 64).toUInt8, (0x80 + r % 64).toUInt8]
  else
    [(0xF0 + r / 262144).toUInt8, (0x80 + r / 4096 % 64).toUInt8, (0x80 + r / 64 % 64).toUInt8,
      (0x80 + r % 64).toUInt8]

def ofRunes (rs : List Rune) : Bytes := rs.flatMap encode

def isWellFormed (text : Bytes) : Bool :=
  (runePieces text).all fun (r, bytes) => r != replacement || bytes.length == 3

def unitWidth (r : Rune) : Nat := if 0x10000 ≤ r then 2 else 1

def unitCount (rs : List Rune) : Nat := rs.foldl (fun n r => n + unitWidth r) 0

def indexOfUnit : List Rune → Nat → Nat
  | _, 0 => 0
  | [], _ => 0
  | r :: rs, n => 1 + indexOfUnit rs (n - unitWidth r)

end TurtleLogo.Text
