import TurtleLogo.Yaml.Cursor

/-!
Literal and folded blocks: scalars that take up the lines indented deeper than what holds
them.
-/
namespace TurtleLogo.Yaml
open Text

inductive Chomp where
  | clip | strip | keep
  deriving DecidableEq, Repr

structure BlockHeader where
  chomp : Chomp
  deeper : Option Nat
  deriving DecidableEq, Repr

def chomp? (r : Rune) : Option Chomp :=
  if r == rune '+' then some .keep else if r == rune '-' then some .strip else none

def takeChomp : Reader (Option Chomp) := do
  need 1
  let found := chomp? (← ahead 0)
  if found.isSome then skip
  return found

def takeDepth (begun : Mark) : Reader (Option Nat) := do
  need 1
  let r ← ahead 0
  if r == rune '0' then fail begun "found an indentation indicator equal to 0"
  else if isDigitRune r then
    skip
    return some (r - 48)
  else return none

def takeHeader (begun : Mark) : Reader BlockHeader := do
  let before ← takeChomp
  let deeper ← takeDepth begun
  let behind ← if before.isNone && deeper.isSome then takeChomp else pure none
  skipGaps
  return ⟨(before.or behind).getD .clip, deeper⟩

def skipIndentWithin (indent : Nat) : Nat → Reader Unit
  | 0 => return
  | n + 1 => do
    need 1
    if (indent == 0 || (← column) < indent) && (← ahead 0) == 32 then
      skip
      skipIndentWithin indent n

/-- The empty lines here, and the greatest column that a line up to the next one with content begins
    in. An indentation of zero is not known yet. -/
def takeEmptyLines (begun : Mark) (indent : Nat) :
    Nat → (breaks : List Rune) → (deepest : Nat) → Reader (List Rune × Nat)
  | 0, breaks, deepest => return (breaks, deepest)
  | n + 1, breaks, deepest => do
    skipIndentWithin indent ((← get).left + 1)
    let here ← column
    let r ← ahead 0
    if (indent == 0 || here < indent) && r == 9 then
      fail begun "found a tab character where an indentation space is expected"
    else if isBreak r then
      let line ← takeBreak
      takeEmptyLines begun indent n (breaks ++ line) (max deepest here)
    else return (breaks, max deepest here)

/-- The lines of a block from here on, given the break that ended the one before, the breaks of
    empty lines behind that, and whether it began with a gap. -/
def takeBlockLines (literal : Bool) (chomp : Chomp) (begun : Mark) (indent : Nat) :
    Nat → (ended empty : List Rune) → (gapped : Bool) → Reader (List Rune)
  | 0, _, _, _ => return []
  | n + 1, ended, empty, gapped => do
    need 1
    let r ← ahead 0
    if (← column) != indent || r == 0 then
      return (if chomp == .strip then [] else ended) ++ (if chomp == .keep then empty else [])
    else
      let joint :=
        if !literal && !gapped && !isGap r && ended == [10] then if empty.isEmpty then [32] else []
        else ended
      let line ← takeWhile fun r => !isBreakOrEnd r
      let ended ← takeBreak
      let (breaks, _) ← takeEmptyLines begun indent ((← get).left + 1) [] 0
      let rest ← takeBlockLines literal chomp begun indent n ended breaks (isGap r)
      return joint ++ empty ++ line ++ rest

def takeBlock (literal : Bool) (parent : Int) (begun : Mark) (header : BlockHeader) :
    Reader (List Rune) := do
  if !isBreakOrEnd (← ahead 0) then fail begun "did not find expected comment or line break"
  skipBreak
  let given := header.deeper.map fun n => (max parent 0).toNat + n
  let (breaks, deepest) ← takeEmptyLines begun (given.getD 0) ((← get).left + 1) [] 0
  let indent := given.getD (max (max deepest (parent + 1).toNat) 1)
  takeBlockLines literal header.chomp begun indent ((← get).left + 1) [] breaks false

end TurtleLogo.Yaml
