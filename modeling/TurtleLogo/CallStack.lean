import TurtleLogo.Position
import TurtleLogo.Program

/-!
The calls in progress while a program runs. Their number is kept beside them, because
every call asks for it.
-/
namespace TurtleLogo
open Text

structure CallFrame where
  procedure : Name
  pos : Position
  deriving DecidableEq, Repr

/-- The calls in progress, the innermost first, and how many they are. -/
structure CallStack where
  frames : List CallFrame
  depth : Nat
  depth_eq : depth = frames.length
  deriving DecidableEq, Repr

namespace CallStack

def empty : CallStack := ⟨[], 0, rfl⟩

def push (s : CallStack) (f : CallFrame) : CallStack :=
  ⟨f :: s.frames, s.depth + 1, by simp [s.depth_eq]⟩

def pop (s : CallStack) : CallStack := ⟨s.frames.tail, s.depth - 1, by simp [s.depth_eq]⟩

@[simp] theorem pop_push (s : CallStack) (f : CallFrame) : (s.push f).pop = s := rfl

end CallStack
end TurtleLogo
