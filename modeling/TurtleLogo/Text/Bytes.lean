/-!
Texts are byte strings. Nothing obliges a program, a file or a message to be
well-formed UTF-8, offsets count bytes, and names are ordered byte by byte.
-/
namespace TurtleLogo.Text

abbrev Bytes := List UInt8

def utf8 (s : String) : Bytes := s.toList.flatMap String.utf8EncodeChar

@[inline] def byte (c : Char) : UInt8 := c.toUInt8

def newline : UInt8 := 10

def carriageReturn : UInt8 := 13

def space : UInt8 := 32

def doubleQuote : UInt8 := 34

def apostrophe : UInt8 := 39

def before : Bytes → Bytes → Bool
  | _, [] => false
  | [], _ :: _ => true
  | a :: as, b :: bs => a < b || (a == b && before as bs)

def sorted (texts : List Bytes) : List Bytes := texts.mergeSort fun a b => !before b a

def compact : List Bytes → List Bytes
  | [] => []
  | [a] => [a]
  | a :: b :: rest => if a == b then compact (b :: rest) else a :: compact (b :: rest)

def splitOn (sep : UInt8) : Bytes → List Bytes
  | [] => [[]]
  | b :: bs =>
    if b == sep then [] :: splitOn sep bs
    else match splitOn sep bs with
      | [] => [[b]]
      | piece :: pieces => (b :: piece) :: pieces

def lines (text : Bytes) : List Bytes := splitOn newline text

def joined (sep : Bytes) (pieces : List Bytes) : Bytes := List.intercalate sep pieces

def dropEndWhile (p : UInt8 → Bool) (text : Bytes) : Bytes := (text.reverse.dropWhile p).reverse

def withoutReturns (line : Bytes) : Bytes := dropEndWhile (· == carriageReturn) line

/-- Every line end as a newline: a carriage return counts as one, with or without a newline
    behind it. -/
def unifyEnds : Bytes → Bytes
  | [] => []
  | 13 :: 10 :: rest => newline :: unifyEnds rest
  | b :: rest => (if b == carriageReturn then newline else b) :: unifyEnds rest

def cutAt? (sep : UInt8) : Bytes → Option (Bytes × Bytes)
  | [] => none
  | b :: bs => if b == sep then some ([], bs) else (cutAt? sep bs).map fun (l, r) => (b :: l, r)

def isDigit (b : UInt8) : Bool := 48 ≤ b && b ≤ 57

def isLetter (b : UInt8) : Bool := (65 ≤ b && b ≤ 90) || (97 ≤ b && b ≤ 122)

def digitValue (b : UInt8) : Nat := b.toNat - 48

def lowered (b : UInt8) : UInt8 := if 65 ≤ b && b ≤ 90 then b + 32 else b

def natOfDigits (digits : Bytes) : Nat := digits.foldl (fun n b => 10 * n + digitValue b) 0

def decimal (n : Nat) : Bytes := (Nat.toDigits 10 n).map byte

def signedDecimal : Int → Bytes
  | .ofNat n => decimal n
  | .negSucc n => byte '-' :: decimal (n + 1)

def hexDigit (n : Nat) : UInt8 := byte (Nat.digitChar n)

def hex : (places : Nat) → Nat → Bytes
  | 0, _ => []
  | places + 1, n => hex places (n / 16) ++ [hexDigit (n % 16)]

def hexValue? (b : UInt8) : Option Nat :=
  if isDigit b then some (digitValue b)
  else if 97 ≤ b && b ≤ 102 then some (b.toNat - 87)
  else if 65 ≤ b && b ≤ 70 then some (b.toNat - 55)
  else none

end TurtleLogo.Text
