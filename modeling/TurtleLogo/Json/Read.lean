import TurtleLogo.Json.Value
import TurtleLogo.Number.Power

/-!
JSON read from bytes. Blanks are tab, line feed, carriage return and space; a text holds
one value, nested at most ten thousand deep.
-/
namespace TurtleLogo.Json
open Text

def isBlankByte (b : UInt8) : Bool := b == 9 || b == 10 || b == 13 || b == 32

def skipBlanks (text : Bytes) : Bytes := text.dropWhile isBlankByte

def isHexDigit (b : UInt8) : Bool := (hexValue? b).isSome

def isEscapeLetter (b : UInt8) : Bool := (utf8 "\"\\/bfnrt").contains b

def rawString? : Bytes → Option (Bytes × Bytes)
  | [] => none
  | 34 :: rest => some ([], rest)
  | 92 :: 117 :: a :: b :: c :: d :: rest =>
    if isHexDigit a && isHexDigit b && isHexDigit c && isHexDigit d then
      (rawString? rest).map fun (raw, tail) => (92 :: 117 :: a :: b :: c :: d :: raw, tail)
    else none
  | 92 :: e :: rest =>
    if isEscapeLetter e then (rawString? rest).map fun (raw, tail) => (92 :: e :: raw, tail)
    else none
  | b :: rest =>
    if b < 32 || b == 92 then none else (rawString? rest).map fun (raw, tail) => (b :: raw, tail)

def digits? (text : Bytes) : Option (Bytes × Bytes) :=
  let run := text.takeWhile isDigit
  if run.isEmpty then none else some (run, text.drop run.length)

def whole? : Bytes → Option (Bytes × Bytes)
  | [] => none
  | b :: rest => if b == byte '0' then some ([b], rest) else digits? (b :: rest)

def fraction? : Bytes → Option (Bytes × Bytes)
  | 46 :: rest => (digits? rest).map fun (run, tail) => (46 :: run, tail)
  | text => some ([], text)

def exponent? : Bytes → Option (Bytes × Bytes)
  | [] => some ([], [])
  | b :: rest =>
    if b == byte 'e' || b == byte 'E' then
      match rest with
      | s :: tail =>
        if s == byte '+' || s == byte '-' then (digits? tail).map fun (run, t) => (b :: s :: run, t)
        else (digits? rest).map fun (run, t) => (b :: run, t)
      | [] => none
    else some ([], b :: rest)

def unsigned? (text : Bytes) : Option (Bytes × Bytes) := do
  let (whole, text) ← whole? text
  let (fraction, text) ← fraction? text
  let (exponent, text) ← exponent? text
  return (whole ++ fraction ++ exponent, text)

def number? : Bytes → Option (Bytes × Bytes)
  | 45 :: rest => (unsigned? rest).map fun (literal, tail) => (45 :: literal, tail)
  | text => unsigned? text

def word? (word : String) (value : Json) (text : Bytes) : Option (Json × Bytes) :=
  if (utf8 word).isPrefixOf text then some (value, text.drop (utf8 word).length) else none

mutual

/-- A value at the beginning of a text; `depth` levels may still be opened. -/
def value? : (fuel : Nat) → (depth : Nat) → Bytes → Option (Json × Bytes)
  | 0, _, _ => none
  | fuel + 1, depth, text =>
    match skipBlanks text with
    | [] => none
    | b :: rest =>
      if b == doubleQuote then (rawString? rest).map fun (raw, tail) => (.string raw, tail)
      else if b == byte '[' then
        match depth with
        | 0 => none
        | depth + 1 =>
          match skipBlanks rest with
          | 93 :: tail => some (.array [], tail)
          | text => (items? fuel depth text).map fun (items, tail) => (.array items, tail)
      else if b == byte '{' then
        match depth with
        | 0 => none
        | depth + 1 =>
          match skipBlanks rest with
          | 125 :: tail => some (.object [], tail)
          | text => (members? fuel depth text).map fun (members, tail) => (.object members, tail)
      else if b == byte 't' then word? "true" (.bool true) (b :: rest)
      else if b == byte 'f' then word? "false" (.bool false) (b :: rest)
      else if b == byte 'n' then word? "null" .null (b :: rest)
      else (number? (b :: rest)).map fun (literal, tail) => (.number literal, tail)

def items? : (fuel : Nat) → (depth : Nat) → Bytes → Option (List Json × Bytes)
  | 0, _, _ => none
  | fuel + 1, depth, text => do
    let (item, text) ← value? fuel depth text
    match skipBlanks text with
    | 44 :: rest =>
      let (items, tail) ← items? fuel depth rest
      return (item :: items, tail)
    | 93 :: tail => return ([item], tail)
    | _ => none

def members? : (fuel : Nat) → (depth : Nat) → Bytes → Option (List (Bytes × Json) × Bytes)
  | 0, _, _ => none
  | fuel + 1, depth, text =>
    match skipBlanks text with
    | 34 :: rest => do
      let (key, text) ← rawString? rest
      match skipBlanks text with
      | 58 :: text =>
        let (value, text) ← value? fuel depth text
        match skipBlanks text with
        | 44 :: rest =>
          let (members, tail) ← members? fuel depth rest
          return ((key, value) :: members, tail)
        | 125 :: tail => return ([(key, value)], tail)
        | _ => none
      | _ => none
    | _ => none

end

def read? (text : Bytes) : Option Json :=
  match value? (2 * text.length + 2) 10000 text with
  | some (value, tail) => if (skipBlanks tail).isEmpty then some value else none
  | none => none

def unitOf (a b c d : UInt8) : Nat :=
  [a, b, c, d].foldl (fun n x => 16 * n + (hexValue? x).getD 0) 0

/-- The rune of a code unit escape and the bytes it takes behind the backslash. Two escapes that
    are the halves of a surrogate pair make one rune; half a pair is a replacement rune. -/
def unitEscape (unit : Nat) : Bytes → Rune × Nat
  | 92 :: 117 :: e :: f :: g :: h :: _ =>
    let low := unitOf e f g h
    if 0xD800 ≤ unit && unit < 0xDC00 && 0xDC00 ≤ low && low < 0xE000 then
      (0x10000 + (unit - 0xD800) * 0x400 + (low - 0xDC00), 11)
    else (if isSurrogate unit then replacement else unit, 5)
  | _ => (if isSurrogate unit then replacement else unit, 5)

/-- The rune of the escape behind a backslash and the bytes it takes there. -/
def escape : Bytes → Rune × Nat
  | [] => (92, 0)
  | 117 :: a :: b :: c :: d :: rest => unitEscape (unitOf a b c d) rest
  | 98 :: _ => (8, 1)
  | 102 :: _ => (12, 1)
  | 110 :: _ => (10, 1)
  | 114 :: _ => (13, 1)
  | 116 :: _ => (9, 1)
  | e :: _ => (e.toNat, 1)

/-- The runes that a raw string spells after its first `skip` bytes; stray bytes are replacement
    runes. -/
def runesOfRaw : (skip : Nat) → Bytes → List Rune
  | _, [] => []
  | skip + 1, _ :: rest => runesOfRaw skip rest
  | 0, b :: rest =>
    if b == 92 then (escape rest).1 :: runesOfRaw (escape rest).2 rest
    else (firstRune (b :: rest)).rune :: runesOfRaw ((firstRune (b :: rest)).width - 1) rest

def textOfRaw (raw : Bytes) : Bytes := ofRunes (runesOfRaw 0 raw)

def text? : Json → Option Bytes
  | string raw => some (textOfRaw raw)
  | _ => none

/-- The value of an integer literal that fits 64 bits; a fraction or exponent is no integer. -/
def int? : Json → Option Int
  | number literal =>
    let (negative, digits) := match literal with
      | 45 :: rest => (true, rest)
      | rest => (false, rest)
    let magnitude := natOfDigits digits
    let most := if negative then Number.twoTo 63 else Number.twoTo 63 - 1
    if digits.all isDigit && magnitude ≤ most then
      some (if negative then -magnitude else magnitude)
    else none
  | _ => none

def bool? : Json → Option Bool
  | bool value => some value
  | _ => none

def member? (name : String) : Json → Option Json
  | object members => (members.find? fun (key, _) => textOfRaw key == utf8 name).map Prod.snd
  | _ => none

def items (j : Json) : List Json :=
  match j with
  | array items => items
  | _ => []

def entries (j : Json) : List (Bytes × Json) :=
  match j with
  | object members => members.map fun (key, value) => (textOfRaw key, value)
  | _ => []

end TurtleLogo.Json
