/-!
The powers by which numbers are scaled, and which bound machine words.
-/
namespace TurtleLogo.Number

def twoTo (n : Nat) : Nat := Nat.pow 2 n

def tenTo (n : Nat) : Nat := Nat.pow 10 n

/-- The number of 64 bits that stands for an integer when arithmetic wraps around. -/
def wrapped (i : Int) : Int := i.bmod (twoTo 64)

theorem wrapped_eq {i : Int} (low : -twoTo 63 ≤ i) (high : i < twoTo 63) : wrapped i = i := by
  have half : twoTo 63 = 9223372036854775808 := rfl
  have whole : twoTo 64 = 18446744073709551616 := rfl
  rw [half] at low high
  rw [wrapped, whole]
  apply Int.bmod_eq_of_le
  · omega
  · omega

end TurtleLogo.Number
