import TurtleLogo.Number.Power

/-!
Numbers are IEEE 754 doubles. Here a double is taken apart into an integer times a
power of two, which makes remainders and conversions to whole numbers exact.
-/
namespace TurtleLogo.Number

/-- A finite value is its mantissa times two to its exponent. -/
inductive Parts where
  | nan
  | infinite (negative : Bool)
  | finite (negative : Bool) (mantissa : Nat) (exponent : Int)
  deriving DecidableEq, Repr

def parts (x : Float) : Parts :=
  let bits := x.toBits.toNat
  let negative := bits / twoTo 63 == 1
  let scale : Nat := bits / twoTo 52 % 2048
  let fraction := bits % twoTo 52
  if scale == 2047 then if fraction == 0 then .infinite negative else .nan
  else if scale == 0 then .finite negative fraction (-1074)
  else .finite negative (fraction + twoTo 52) ((scale : Int) - 1075)

/-- The double with a mantissa below 2^53 and an exponent of at least -1074. -/
def ofParts (negative : Bool) (mantissa : Nat) (exponent : Int) : Float :=
  let shift := min (52 - mantissa.log2) (exponent + 1074).toNat
  let m := mantissa * twoTo shift
  let magnitude :=
    if m < twoTo 52 then m else (exponent - shift + 1075).toNat * twoTo 52 + (m - twoTo 52)
  Float.ofBits (UInt64.ofNat (if negative then twoTo 63 + magnitude else magnitude))

def isFinite (x : Float) : Bool :=
  match parts x with
  | .finite .. => true
  | _ => false

/-- The exact remainder of a division truncated toward zero, with the sign of the dividend. -/
def remainder (x y : Float) : Float :=
  match parts x, parts y with
  | .finite negative mx ex, .finite _ my ey =>
    if my == 0 then 0 / 0
    else
      let e := min ex ey
      ofParts negative (mx * twoTo (ex - e).toNat % (my * twoTo (ey - e).toNat)) e
  | .finite .., .infinite _ => x
  | _, _ => 0 / 0

/-- The least 64-bit integer stands for whatever has no 64-bit value. -/
def outOfRange : Int := -twoTo 63

def signed (negative : Bool) (n : Nat) : Int := if negative then -n else n

def inRange (i : Int) : Int := if -twoTo 63 ≤ i ∧ i < twoTo 63 then i else outOfRange

def round (x : Float) : Int :=
  match parts x with
  | .finite negative m (.ofNat e) => inRange (signed negative (m * twoTo e))
  | .finite negative m (.negSucc e) => inRange (signed negative ((m + twoTo e) / twoTo (e + 1)))
  | _ => outOfRange

def truncate (x : Float) : Int :=
  match parts x with
  | .finite negative m (.ofNat e) => inRange (signed negative (m * twoTo e))
  | .finite negative m (.negSucc e) => inRange (signed negative (m / twoTo (e + 1)))
  | _ => outOfRange

end TurtleLogo.Number
