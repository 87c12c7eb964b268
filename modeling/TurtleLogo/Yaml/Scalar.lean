import TurtleLogo.Yaml.Cursor

/-!
Plain and quoted scalars. What lies between two lines of a scalar is folded: a single line
break counts as a space, and of several the first falls away.
-/
namespace TurtleLogo.Yaml
open Text

/-- Gaps and line breaks within a scalar: the gaps up to the first break, the first break and those
    behind it. An escaped break counts as broken without a first break. -/
structure Between where
  gaps : List Rune
  broken : Bool
  first : List Rune
  others : List Rune
  deriving DecidableEq, Repr

namespace Between

def nothing : Between := ⟨[], false, [], []⟩

def escapedBreak : Between := ⟨[], true, [], []⟩

def folded (b : Between) : List Rune :=
  if !b.broken then b.gaps
  else if b.first == [10] then if b.others.isEmpty then [32] else b.others
  else b.first ++ b.others

def addGap (b : Between) (r : Rune) : Between :=
  if b.broken then b else { b with gaps := b.gaps ++ [r] }

def addBreak (b : Between) (line : List Rune) : Between :=
  if b.broken then { b with others := b.others ++ line } else ⟨[], true, line, []⟩

end Between

def takeBetween (begun : Mark) (indent : Int) : Nat → Between → Reader Between
  | 0, b => return b
  | n + 1, b => do
    need 1
    let r ← ahead 0
    if isGap r then
      if b.broken && (← column) < indent && r == 9 then
        fail begun "found a tab character that violates indentation"
      else
        skip
        takeBetween begun indent n (b.addGap r)
    else if isBreak r then
      let line ← takeBreak
      takeBetween begun indent n (b.addBreak line)
    else return b

/-- The runes of a plain scalar up to a gap, a line break, a colon before one of them, or within
    brackets a delimiter. -/
def takePlainRun (flow : Bool) : Nat → Reader (List Rune)
  | 0 => return []
  | n + 1 => do
    let r ← ahead 0
    if isSpaceOrEnd r || (r == rune ':' && isSpaceOrEnd (← ahead 1)) ||
        (flow && isAmong ",?[]\x7b\x7d" r) then return []
    else
      skip
      need 2
      return r :: (← takePlainRun flow n)

def takePlainLines (flow : Bool) (indent : Int) (begun : Mark) :
    Nat → Between → Reader (List Rune × Bool)
  | 0, between => return ([], between.broken)
  | n + 1, between => do
    need 4
    let c ← get
    if c.atDocumentMarker || c.ahead 0 == rune '#' then return ([], between.broken)
    else
      let run ← takePlainRun flow (c.left + 1)
      let (taken, between) :=
        if run.isEmpty then ([], between) else (between.folded ++ run, .nothing)
      let r ← ahead 0
      if !(isGap r || isBreak r) then return (taken, between.broken)
      else
        let between ← takeBetween begun indent ((← get).left + 1) between
        if !flow && (← column) < indent then return (taken, between.broken)
        else
          let (rest, broken) ← takePlainLines flow indent begun n between
          return (taken ++ rest, broken)

def takePlain (flow : Bool) (parent : Int) : Reader (List Rune × Bool) := do
  let c ← get
  takePlainLines flow (parent + 1) c.mark (c.left + 1) .nothing

def escapedRune? (r : Rune) : Option Rune :=
  if r == 32 || r == 34 || r == 39 || r == 92 || r == 9 then some r
  else [('0', 0), ('a', 7), ('b', 8), ('t', 9), ('n', 10), ('v', 11), ('f', 12), ('r', 13),
    ('e', 27), ('N', 0x85), ('_', 0xA0), ('L', 0x2028), ('P', 0x2029)].findSome? fun (c, e) =>
      if rune c == r then some e else none

def escapedWidth? (r : Rune) : Option Nat :=
  if r == rune 'x' then some 2
  else if r == rune 'u' then some 4
  else if r == rune 'U' then some 8
  else none

def hexRunesValue? (rs : List Rune) : Option Nat :=
  rs.foldl (fun n r => n.bind fun n => (hexRuneValue? r).map (16 * n + ·)) (some 0)

def takeEscape (begun : Mark) : Reader Rune := do
  let letter ← ahead 1
  match escapedRune? letter, escapedWidth? letter with
  | some r, _ =>
    skipRunes 2
    return r
  | none, none => fail begun "found unknown escape character"
  | none, some width =>
    skipRunes 2
    need width
    let digits := (← get).rest.take width
    match hexRunesValue? digits with
    | none => fail begun "did not find expected hexdecimal number"
    | some r =>
      if digits.length < width then fail begun "did not find expected hexdecimal number"
      else if isSurrogate r || 0x10FFFF < r then
        fail begun "found invalid Unicode character escape code"
      else
        skipRunes width
        return r

def takeSingleRun : Nat → Reader (List Rune)
  | 0 => return []
  | n + 1 => do
    let r ← ahead 0
    if isSpaceOrEnd r then return []
    else if r == 39 then
      if (← ahead 1) == 39 then
        skipRunes 2
        need 2
        return 39 :: (← takeSingleRun n)
      else return []
    else
      skip
      need 2
      return r :: (← takeSingleRun n)

def takeDoubleRun (begun : Mark) : Nat → Reader (List Rune × Bool)
  | 0 => return ([], false)
  | n + 1 => do
    let r ← ahead 0
    if isSpaceOrEnd r || r == 34 then return ([], false)
    else if r == 92 && isBreak (← ahead 1) then
      need 3
      skip
      skipBreak
      return ([], true)
    else
      let taken ← if r == 92 then takeEscape begun else takeRune
      need 2
      let (run, broken) ← takeDoubleRun begun n
      return (taken :: run, broken)

def takeQuotedLines (single : Bool) (begun : Mark) : Nat → Reader (List Rune)
  | 0 => return []
  | n + 1 => do
    need 4
    let c ← get
    if c.atDocumentMarker then fail begun "found unexpected document indicator"
    else if c.ahead 0 == 0 then fail begun "found unexpected end of stream"
    else
      let (run, broken) ←
        if single then pure (← takeSingleRun (c.left + 1), false)
        else takeDoubleRun begun (c.left + 1)
      need 1
      if (← ahead 0) == (if single then 39 else 34) then
        skip
        return run
      else
        let between ← takeBetween begun 0 ((← get).left + 1)
          (if broken then .escapedBreak else .nothing)
        return run ++ between.folded ++ (← takeQuotedLines single begun n)

def takeQuoted (single : Bool) : Reader (List Rune) := do
  let c ← get
  skip
  takeQuotedLines single c.mark (c.left + 1)

end TurtleLogo.Yaml
