import TurtleLogo.Number.Decimal
import TurtleLogo.Yaml.Failure
import TurtleLogo.Yaml.Timestamp

/-!
The values that scalars stand for. A tag tells the type of a scalar; that of a plain scalar
without one follows from how it is written.
-/
namespace TurtleLogo.Yaml
open Text

inductive Value where
  | null
  | bool (value : Bool)
  | int (value : Int)
  | float (value : Float)
  | date (value : Moment)
  | text (value : Bytes)
  deriving DecidableEq

def Value.tag : Value → String
  | null => "!!null"
  | bool _ => "!!bool"
  | int _ => "!!int"
  | float _ => "!!float"
  | date _ => "!!timestamp"
  | text _ => "!!str"

def among (spellings : List String) (text : Bytes) : Bool := spellings.any fun s => utf8 s == text

def digitsIn? (base : Nat) (text : Bytes) : Option Nat :=
  if text.isEmpty then none
  else text.foldl (fun acc b =>
    match acc, hexValue? b with
    | some n, some d => if d < base then some (base * n + d) else none
    | _, _ => none) (some 0)

/-- A magnitude in base sixteen, eight or two behind its mark, in base eight behind a zero, or in
    base ten. -/
def magnitude? : Bytes → Option Nat
  | 48 :: mark :: rest =>
    if mark == byte 'x' || mark == byte 'X' then digitsIn? 16 rest
    else if mark == byte 'o' || mark == byte 'O' then digitsIn? 8 rest
    else if mark == byte 'b' || mark == byte 'B' then digitsIn? 2 rest
    else digitsIn? 8 (mark :: rest)
  | text => digitsIn? 10 text

def signed? (magnitude? : Bytes → Option Nat) (text : Bytes) : Option Int :=
  match text with
  | [] => none
  | b :: rest =>
    if b == byte '-' then
      (magnitude? rest).bind fun n => if n ≤ Number.twoTo 63 then some (-n) else none
    else
      (magnitude? (if b == byte '+' then rest else text)).bind fun n =>
        if n < Number.twoTo 63 then some n else none

def signedIn? (base : Nat) (text : Bytes) : Option Int := signed? (digitsIn? base) text

def int? (text : Bytes) : Option Int :=
  (signed? magnitude? text).or
    ((magnitude? text).bind fun n => if n < Number.twoTo 64 then some n else none)

def exponent? : Bytes → Option Int
  | [] => some 0
  | e :: rest =>
    if e == byte 'e' || e == byte 'E' then
      match rest with
      | s :: digits =>
        if s == byte '-' then (digitsIn? 10 digits).map fun n => -(n : Int)
        else if s == byte '+' then (digitsIn? 10 digits).map fun n => (n : Int)
        else (digitsIn? 10 rest).map fun n => (n : Int)
      | [] => none
    else none

def unsignedFloat? (text : Bytes) : Option Float :=
  let whole := text.takeWhile isDigit
  let rest := text.drop whole.length
  let (fraction, rest) := match rest with
    | 46 :: tail => (tail.takeWhile isDigit, tail.dropWhile isDigit)
    | _ => ([], rest)
  if whole.isEmpty && fraction.isEmpty then none
  else
    match exponent? rest with
    | none => none
    | some e =>
      let scale := e - fraction.length
      let value := Float.ofScientific (natOfDigits (whole ++ fraction)) (scale < 0) scale.natAbs
      if value.isInf then none else some value

def float? : Bytes → Option Float
  | [] => none
  | b :: rest =>
    if b == byte '-' then (unsignedFloat? rest).map (- ·)
    else if b == byte '+' then unsignedFloat? rest
    else unsignedFloat? (b :: rest)

def signedBehindMark? : Bytes → Option Int
  | 48 :: mark :: rest =>
    if mark == byte 'b' then signedIn? 2 rest
    else if mark == byte 'o' then signedIn? 8 rest
    else none
  | _ => none

def separatesDigits (text : Bytes) : Bool :=
  let parts := splitOn (byte '_') text
  (parts.dropLast.all fun part => part.getLast?.any isDigit) &&
    (parts.drop 1).all fun part => part.head?.any isDigit

def withoutUnderscores (text : Bytes) : Bytes := text.filter (· != byte '_')

def numeric (dated : Bool) (text : Bytes) : Value :=
  let bare := withoutUnderscores text
  match if dated then timestamp? text else none with
  | some moment => .date moment
  | none =>
    match int? bare, float? bare with
    | some i, _ => .int i
    | none, some x => .float x
    | none, none => ((signedBehindMark? bare).map Value.int).getD (.text text)

def spelled (dated : Bool) (text : Bytes) : Value :=
  if among ["", "~", "null", "Null", "NULL"] text then .null
  else if among ["true", "True", "TRUE"] text then .bool true
  else if among ["false", "False", "FALSE"] text then .bool false
  else if among [".nan", ".NaN", ".NAN"] text then .float (0 / 0)
  else if among [".inf", ".Inf", ".INF", "+.inf", "+.Inf", "+.INF"] text then .float (1 / 0)
  else if among ["-.inf", "-.Inf", "-.INF"] text then .float (-1 / 0)
  else match text with
    | [] => .null
    | b :: _ =>
      if b == byte '.' then
        if separatesDigits text then
          ((float? (withoutUnderscores text)).map Value.float).getD (.text text)
        else .text text
      else if isDigit b || b == byte '-' || b == byte '+' then numeric dated text
      else .text text

def base64Value? (b : UInt8) : Option Nat :=
  if 65 ≤ b && b ≤ 90 then some (b.toNat - 65)
  else if 97 ≤ b && b ≤ 122 then some (b.toNat - 71)
  else if isDigit b then some (digitValue b + 52)
  else if b == byte '+' then some 62
  else if b == byte '/' then some 63
  else none

/-- The bytes written in base 64, by groups of four digits of which the last may be filled up with
    equal signs. -/
def base64? : Bytes → Option Bytes
  | [] => some []
  | a :: b :: c :: d :: rest => do
    let high ← base64Value? a
    let next ← base64Value? b
    let first := (high * 4 + next / 16).toUInt8
    if c == byte '=' && d == byte '=' && rest.isEmpty then some [first]
    else
      let low ← base64Value? c
      let second := (next % 16 * 16 + low / 4).toUInt8
      if d == byte '=' && rest.isEmpty then some [first, second]
      else
        let last ← base64Value? d
        return first :: second :: (low % 4 * 64 + last).toUInt8 :: (← base64? rest)
  | _ => none

def isSpelledTag (tag : Bytes) : Bool :=
  among ["!!bool", "!!int", "!!float", "!!null", "!!timestamp"] tag

/-- What a scalar of a tag stands for. An integer will do for a number with a fraction, and a tag of
    no known type leaves a text as it is. -/
def valueOf (tag text : Bytes) : Except Failure Value :=
  if tag == utf8 "!!binary" then
    match base64? (text.filter fun b => b != newline && b != carriageReturn) with
    | some bytes => .ok (.text bytes)
    | none => .error .invalidBase64
  else if isSpelledTag tag then
    let value := spelled (tag == utf8 "!!timestamp") text
    if utf8 value.tag == tag then .ok value
    else match value with
      | .int i =>
        if tag == utf8 "!!float" && i < Number.twoTo 63 then .ok (.float (Float.ofInt i))
        else .error (.undecodable value.tag text tag)
      | _ => .error (.undecodable value.tag text tag)
  else .ok (.text text)

end TurtleLogo.Yaml
