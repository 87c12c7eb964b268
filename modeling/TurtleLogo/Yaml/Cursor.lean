import TurtleLogo.Yaml.Character
import TurtleLogo.Yaml.Failure

/-!
A place in the characters of a YAML text, and the small steps by which it moves on over gaps
and line breaks. A step that fails leaves the place where the fault was noticed, so that
reading can go on behind it. The end of the text counts as the rune zero, which no text can
hold.
-/
namespace TurtleLogo.Yaml
open Text

structure Mark where
  index : Nat
  line : Nat
  column : Nat
  deriving DecidableEq, Repr

/-- The runes from a place on, of which there are `left`. Those in `rest`, which are `held`, were
    taken in, and those in `windows` were not. `breaks` lines ended since the last rune that is no
    gap. `trouble` tells what is wrong with the last window, if something is. `marked` tells whether
    the runes held when some were taken in last began with a byte order mark. `blame` is the last
    fault that was noticed, whether it stopped the reading or not. -/
structure Cursor where
  rest : List Rune
  held : Nat
  windows : List (List Rune)
  left : Nat
  mark : Mark
  breaks : Nat
  trouble : Option String
  marked : Bool
  blame : Option Blame
  deriving DecidableEq, Repr

abbrev Reader := EStateM Blame Cursor

@[inline] def rune (c : Char) : Rune := c.toNat

def orderMark : Rune := 0xFEFF

def isGap (r : Rune) : Bool := r == 32 || r == 9

def isBreak (r : Rune) : Bool := r == 10 || r == 13 || r == 0x85 || r == 0x2028 || r == 0x2029

def isBreakOrEnd (r : Rune) : Bool := r == 0 || isBreak r

def isSpaceOrEnd (r : Rune) : Bool := isGap r || isBreakOrEnd r

def isAmong (set : String) (r : Rune) : Bool := set.toList.any fun c => rune c == r

def isDigitRune (r : Rune) : Bool := 48 ≤ r && r ≤ 57

def hexRuneValue? (r : Rune) : Option Nat := if r < 128 then hexValue? r.toUInt8 else none

def isNameRune (r : Rune) : Bool :=
  isDigitRune r || (65 ≤ r && r ≤ 90) || (97 ≤ r && r ≤ 122) || r == 95 || r == 45

namespace Cursor

def start (cs : Characters) : Cursor :=
  { rest := [], held := 0, windows := cs.windows, left := cs.length, mark := ⟨0, 0, 0⟩, breaks := 0,
    trouble := cs.problem, marked := false, blame := none }

def ahead (c : Cursor) (k : Nat) : Rune := (c.rest[k]?).getD 0

def skip (c : Cursor) : Cursor :=
  { c with
    rest := c.rest.drop 1
    held := c.held - 1
    left := c.left - 1
    mark := ⟨c.mark.index + 1, c.mark.line, c.mark.column + 1⟩
    breaks := if isGap (c.ahead 0) then c.breaks else 0 }

def skipBreak (c : Cursor) (width : Nat) : Cursor :=
  { c with
    rest := c.rest.drop width
    held := c.held - width
    left := c.left - width
    mark := ⟨c.mark.index + width, c.mark.line + 1, 0⟩
    breaks := c.breaks + 1 }

def atDocumentMarker (c : Cursor) : Bool :=
  let alone (r : Rune) := c.ahead 0 == r && c.ahead 1 == r && c.ahead 2 == r
  c.mark.column == 0 && (alone (rune '-') || alone (rune '.')) && isSpaceOrEnd (c.ahead 3)

def gather (n : Nat) (rest : List Rune) (held : Nat) :
    List (List Rune) → List Rune × Nat × List (List Rune)
  | [] => (rest, held, [])
  | w :: ws => if held < n then gather n (rest ++ w) (held + w.length) ws else (rest, held, w :: ws)

def takeIn (c : Cursor) (n : Nat) : Cursor :=
  let (rest, held, windows) := gather n c.rest c.held c.windows
  { c with rest, held, windows, marked := rest.head? == some orderMark }

/-- The trouble with the text once all of it was taken in. It has no line of its own, so that a
    fault noticed before lends it one. -/
def trouble? (c : Cursor) : Option Blame :=
  match c.windows, c.trouble with
  | [], some problem =>
    some ⟨problem, (c.blame.map Blame.begun).getD 0, (c.blame.map Blame.here).getD 0, false⟩
  | _, _ => none

end Cursor

def stop {α : Type} (b : Blame) : Reader α := do
  modify ({ · with blame := some b })
  throw b

def settle : Reader Unit := do
  match (← get).blame with
  | some b => throw b
  | none => return

def isSure (n : Nat) : Reader Bool := do
  let c ← get
  if n ≤ c.held then return true
  else
    let more := c.takeIn n
    match more.trouble? with
    | none =>
      set more
      return true
    | some b =>
      set { more with blame := some b }
      return false

def need (n : Nat) : Reader Unit := do
  unless ← isSure n do settle

def ahead (k : Nat) : Reader Rune := return (← get).ahead k

def mark : Reader Mark := return (← get).mark

def column : Reader Nat := return (← get).mark.column

def fail {α : Type} (begun : Mark) (text : String) : Reader α := do
  stop ⟨text, begun.line, (← mark).line, true⟩

def skip : Reader Unit := modify Cursor.skip

def takeRune : Reader Rune := do
  let r ← ahead 0
  skip
  return r

/-- The line break here, if there is one. Those of one line count as a newline, and the separators
    of lines and paragraphs stand for themselves. -/
def takeBreak : Reader (List Rune) := do
  need 2
  let c ← get
  let r := c.ahead 0
  if r == 13 && c.ahead 1 == 10 then
    set (c.skipBreak 2)
    return [10]
  else if isBreak r then
    set (c.skipBreak 1)
    return [if r == 0x2028 || r == 0x2029 then r else 10]
  else return []

def skipBreak : Reader Unit := do
  if isBreak (← ahead 0) then discard takeBreak

def skipRunes : Nat → Reader Unit
  | 0 => return
  | n + 1 => do
    skip
    skipRunes n

def skipWhileWithin (test : Rune → Bool) : Nat → Reader Unit
  | 0 => return
  | n + 1 => do
    need 1
    if test (← ahead 0) then
      skip
      skipWhileWithin test n

def skipWhile (test : Rune → Bool) : Reader Unit := do
  skipWhileWithin test ((← get).left + 1)

def takeWhileWithin (test : Rune → Bool) : Nat → Reader (List Rune)
  | 0 => return []
  | n + 1 => do
    need 1
    if test (← ahead 0) then
      let r ← takeRune
      return r :: (← takeWhileWithin test n)
    else return []

def takeWhile (test : Rune → Bool) : Reader (List Rune) := do
  takeWhileWithin test ((← get).left + 1)

def skipGaps : Reader Unit := skipWhile isGap

def skipLine : Reader Unit := skipWhile fun r => !isBreakOrEnd r

def skipGapsAndBreaksWithin : Nat → Reader Unit
  | 0 => return
  | n + 1 => do
    need 1
    let r ← ahead 0
    if isGap r then
      skip
      skipGapsAndBreaksWithin n
    else if isBreak r then
      skipBreak
      skipGapsAndBreaksWithin n

def skipGapsAndBreaks : Reader Unit := do skipGapsAndBreaksWithin ((← get).left + 1)

end TurtleLogo.Yaml
