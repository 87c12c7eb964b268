import TurtleLogo.Number.Binary64
import TurtleLogo.Text.Bytes

/-!
Doubles in decimal: literals are read to the nearest double, and values are written
with the fewest digits that read back as the same double.
-/
namespace TurtleLogo.Number
open Text

/-- The value of a literal of digits with an optional point; none where it exceeds every double. -/
def ofLiteral? (literal : Bytes) : Option Float :=
  let whole := literal.takeWhile isDigit
  let fraction := (literal.drop whole.length).drop 1
  let value := Float.ofScientific (natOfDigits (whole ++ fraction)) true fraction.length
  if value.isInf then none else some value

/-- The significant digits of a positive number, of which `point` stand before the decimal point. -/
structure Digits where
  digits : Bytes
  point : Int
  deriving DecidableEq, Repr

structure Ratio where
  num : Nat
  den : Nat

def Ratio.le (a b : Ratio) : Bool := a.num * b.den ≤ b.num * a.den

def Ratio.lt (a b : Ratio) : Bool := a.num * b.den < b.num * a.den

def Ratio.ofBinary (m : Nat) : Int → Ratio
  | .ofNat e => ⟨m * twoTo e, 1⟩
  | .negSucc e => ⟨m, twoTo (e + 1)⟩

def Ratio.ofDecimal (m : Nat) : Int → Ratio
  | .ofNat e => ⟨m * tenTo e, 1⟩
  | .negSucc e => ⟨m, tenTo (e + 1)⟩

def digitCount (n : Nat) : Nat := if n == 0 then 0 else (Nat.toDigits 10 n).length

/-- The number of digits before the point, negative for the zeros that follow it. -/
def Ratio.magnitude (r : Ratio) : Int :=
  if r.den ≤ r.num then digitCount (r.num / r.den)
  else 1 - digitCount ((r.den + r.num - 1) / r.num - 1)

structure Interval where
  low : Ratio
  high : Ratio
  closed : Bool

def Interval.contains (i : Interval) (r : Ratio) : Bool :=
  if i.closed then i.low.le r && r.le i.high else i.low.lt r && r.lt i.high

/-- Below a power of two the neighbouring double is nearer by half. -/
def roundingInterval (m : Nat) (e : Int) : Interval where
  low := Ratio.ofBinary (if m == twoTo 52 && e > -1074 then 4 * m - 1 else 4 * m - 2) (e - 2)
  high := Ratio.ofBinary (4 * m + 2) (e - 2)
  closed := m % 2 == 0

/-- The neighbour of a value on the grid of multiples of a power of ten that reads back; of two
    the nearer, and of two equally near the even one. -/
def gridPoint? (value : Ratio) (interval : Interval) (power : Int) : Option Nat :=
  let scaled : Ratio := match power with
    | .ofNat p => ⟨value.num, value.den * tenTo p⟩
    | .negSucc p => ⟨value.num * tenTo (p + 1), value.den⟩
  let below := scaled.num / scaled.den
  let fits (d : Nat) := interval.contains (Ratio.ofDecimal d power)
  if fits below && fits (below + 1) then
    let twice := 2 * (scaled.num % scaled.den)
    if twice < scaled.den || (twice == scaled.den && below % 2 == 0) then some below
    else some (below + 1)
  else if fits below then some below
  else if fits (below + 1) then some (below + 1)
  else none

/-- Seventeen digits always suffice. -/
def shortest (m : Nat) (e : Int) : Digits :=
  let value := Ratio.ofBinary m e
  let interval := roundingInterval m e
  let magnitude := value.magnitude
  let found := (List.range 17).findSome? fun (n : Nat) =>
    (gridPoint? value interval (magnitude - (n + 1))).map fun d => (d, magnitude - (n + 1))
  match found with
  | some (d, power) =>
    let digits := decimal d
    ⟨dropEndWhile (· == byte '0') digits, digits.length + power⟩
  | none => ⟨[], 0⟩

def zeros (n : Nat) : Bytes := List.replicate n (byte '0')

def Digits.positional (d : Digits) : Bytes :=
  if d.point ≤ 0 then utf8 "0." ++ zeros (-d.point).toNat ++ d.digits
  else if d.digits.length ≤ d.point.toNat then d.digits ++ zeros (d.point.toNat - d.digits.length)
  else d.digits.take d.point.toNat ++ byte '.' :: d.digits.drop d.point.toNat

def exponentText (e : Int) : Bytes :=
  let places := decimal e.natAbs
  byte 'e' :: (if e < 0 then byte '-' else byte '+') :: zeros (2 - places.length) ++ places

def Digits.scientific (d : Digits) : Bytes :=
  match d.digits with
  | [] => []
  | [lead] => lead :: exponentText (d.point - 1)
  | lead :: rest => lead :: byte '.' :: rest ++ exponentText (d.point - 1)

/-- Values from 0.0001 up to a million are written positionally. -/
def Digits.text (d : Digits) : Bytes :=
  if d.point < -3 || 6 < d.point then d.scientific else d.positional

def text (x : Float) : Bytes :=
  match parts x with
  | .nan => utf8 "NaN"
  | .infinite negative => utf8 (if negative then "-Inf" else "+Inf")
  | .finite negative m e =>
    let magnitude := if m == 0 then utf8 "0" else (shortest m e).text
    if negative then byte '-' :: magnitude else magnitude

def hundredths (x : Float) : Bytes :=
  let r := (x * 100).round / 100
  text (if r == 0 then 0 else r)

end TurtleLogo.Number
