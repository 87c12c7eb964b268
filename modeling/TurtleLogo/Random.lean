import TurtleLogo.Number.Power

/-!
The stream of random numbers: a permuted congruential generator whose state is a
128-bit word and whose draws are 64-bit words.
-/
namespace TurtleLogo.Random

structure Stream where
  high : UInt64
  low : UInt64
  deriving DecidableEq, Repr

def multiplier : Nat := 2549297995355413924 * Number.twoTo 64 + 4865540595714422341

def increment : Nat := 6364136223846793005 * Number.twoTo 64 + 1442695040888963407

def Stream.advance (s : Stream) : Stream :=
  let state := (s.high.toNat * Number.twoTo 64 + s.low.toNat) * multiplier + increment
  ⟨UInt64.ofNat (state / Number.twoTo 64), UInt64.ofNat state⟩

def Stream.word (s : Stream) : UInt64 :=
  let folded := (s.high ^^^ (s.high >>> 32)) * 0xda942042e4dd58b5
  (folded ^^^ (folded >>> 48)) * (s.low ||| 1)

def Stream.draw (s : Stream) : Float × Stream :=
  let next := s.advance
  (Float.ofNat (next.word.toNat % Number.twoTo 53) / Float.ofNat (Number.twoTo 53), next)

end TurtleLogo.Random
