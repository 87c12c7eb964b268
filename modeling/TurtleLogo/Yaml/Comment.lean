import TurtleLogo.Yaml.Cursor

/-!
Comments. They stand for nothing, but where one stands above an item tokens are read ahead
earlier, and block collections end where the comments behind them begin. So every comment
is kept until the token that it belongs to is looked at.
-/
namespace TurtleLogo.Yaml
open Text

inductive CommentPlace where
  | above | beside | below
  deriving DecidableEq, Repr

/-- A comment of one line or several. Its text is held with the last rune first. It belongs to the
    first token that begins at the index `token` or behind it. The search for it began at the index
    `searched` and went on to `finish`; both are zero for one beside a token. Columns of comments
    count from one. -/
structure Comment where
  place : CommentPlace
  reversed : List Rune
  token : Nat
  start : Mark
  searched : Nat
  finish : Nat
  deriving DecidableEq, Repr

def commentReach : Nat := 512

def isBesideWithin (offset : Nat) : Nat → Reader Bool
  | 0 => return false
  | n + 1 => do
    if ← isSure (offset + 1) then
      let r ← ahead offset
      if isGap r then isBesideWithin (offset + 1) n else return r == rune '#'
    else return false

def takeBeside (token : Nat) : Reader (List Comment) := do
  if (← get).breaks == 0 then
    if ← isBesideWithin 0 commentReach then
      skipGaps
      let start ← mark
      let text ← takeWhile fun r => !isBreakOrEnd r
      return [⟨.beside, text.reverse, token, start, 0, 0⟩]
  return []

/-- Where comments are looked for: within brackets or not, how deep the block around is indented,
    the index of the token before, whether that is a colon, and the line on which a comment must
    begin to be below it, if there is such a line. -/
structure CommentSite where
  flow : Bool
  indent : Nat
  token : Nat
  behindColon : Bool
  lineBelow : Option Nat
  deriving DecidableEq, Repr

/-- What was found so far. The comment at hand has the text `reversed`, which is empty if there is
    none, and begins at `start`; an empty line may have been met before it, or just now. -/
structure CommentSearch where
  found : List Comment
  reversed : List Rune
  start : Mark
  token : Nat
  searched : Nat
  line : Nat
  column : Nat
  noneEmpty : Bool
  justEmpty : Bool
  deriving DecidableEq, Repr

inductive CommentSign where
  | goOn (s : CommentSearch)
  | done (s : CommentSearch)
  | comment (s : CommentSearch)
  deriving DecidableEq, Repr

namespace CommentSearch

def below (s : CommentSearch) (token index : Nat) : CommentSearch :=
  if s.reversed.isEmpty then s
  else
    { s with
      found := s.found ++ [⟨.below, s.reversed, token, s.start, s.searched, index⟩]
      reversed := []
      token := index
      searched := index }

def isOutside (s : CommentSearch) (site : CommentSite) : Bool := s.start.column ≤ site.indent

/-- At the end of a line or of what is in brackets. The first empty line makes the comment above it
    one that is below the token before, if it begins right below that or is indented less. -/
def atEnd (s : CommentSearch) (site : CommentSite) (closes : Bool) (index : Nat) (r : Rune) :
    CommentSearch :=
  let isBelow := some s.start.line == site.lineBelow && !site.behindColon
  if closes || (!s.justEmpty && s.noneEmpty && (isBelow || s.isOutside site)) then
    s.below (if s.isOutside site then s.start.index else s.token) index
  else if !s.justEmpty && !s.reversed.isEmpty && r != 0 then { s with reversed := 10 :: s.reversed }
  else s

def look (s : CommentSearch) (site : CommentSite) (index : Nat) (r : Rune) : CommentSign :=
  let s := { s with column := s.column + 1 }
  let closes := site.flow && (r == rune ']' || r == 0x7D)
  if isGap r then .goOn s
  else if isBreak r then
    let s := s.atEnd site closes index r
    .goOn { s with line := s.line + 1, column := 0, noneEmpty := false, justEmpty := true }
  else if closes || r == 0 then .done (s.atEnd site closes index r)
  else
    let s :=
      if s.column ≤ site.indent && s.column != s.start.column then s.below s.token index else s
    if r != rune '#' then .done s
    else if s.reversed.isEmpty then
      .comment { s with start := ⟨index, s.line, s.column⟩, justEmpty := false }
    else .comment { s with reversed := 10 :: s.reversed, justEmpty := false }

end CommentSearch

def isWideBreak (r : Rune) : Bool := isBreak r && 0x80 ≤ r

def lookAhead (site : CommentSite) (offset : Nat) (wide : Bool) :
    Nat → CommentSearch → Reader (CommentSearch × Nat × Bool)
  | 0, s => return (s, offset, false)
  | n + 1, s => do
    if ← isSure (offset + 1) then
      let c ← get
      let r := if wide then replacement else c.ahead offset
      match s.look site (c.mark.index + offset) r with
      | .goOn s => lookAhead site (offset + 1) (isWideBreak r) n s
      | .done s => return (s, offset, false)
      | .comment s => return (s, offset, true)
    else return (s, offset, false)

def takeCommentsWithin (site : CommentSite) (offset : Nat) :
    Nat → CommentSearch → Reader (List Comment)
  | 0, s => return s.found
  | n + 1, s => do
    let wide := isWideBreak (← ahead 0)
    let (s, offset, isThere) ← lookAhead site offset wide (commentReach - offset) s
    if isThere then
      skipGapsAndBreaks
      let text ← takeWhile fun r => !isBreakOrEnd r
      let line := (← mark).line
      takeCommentsWithin site 1 n
        { s with reversed := text.reverse ++ s.reversed, line := line, column := 0 }
    else if s.reversed.isEmpty then return s.found
    else
      let finish := (← mark).index + offset - 1
      return s.found ++ [⟨.above, s.reversed, s.start.index, s.start, s.searched, finish⟩]

def takeComments (site : CommentSite) (searched : Nat) : Reader (List Comment) := do
  let c ← get
  takeCommentsWithin site 0 (c.left + 1)
    { found := [], reversed := [], start := ⟨0, 0, 0⟩, token := site.token, searched,
      line := c.mark.line, column := c.mark.column, noneEmpty := c.breaks ≤ 1, justEmpty := false }

/-- The place at which a block ends that is indented by `indent`, given the comments so far, the
    last one first. If comments are indented like the block, it ends where the first of them begins,
    as long as there is nothing between them and the place that is known. -/
def blockEnd (indent : Int) : (known : Nat) → (place : Mark) → List Comment → Mark
  | _, place, [] => place
  | known, place, c :: rest =>
    if c.finish < known then place
    else
      blockEnd indent c.searched (if (c.start.column : Int) == indent + 1 then c.start else place)
        rest

def joinComments (reversed more : List Rune) : List Rune :=
  if reversed.isEmpty then more else more ++ 10 :: reversed

def lastParagraphFrom : List Rune → List Rune
  | 10 :: 10 :: _ => []
  | r :: rest => r :: lastParagraphFrom rest
  | [] => []

def lastParagraph (reversed : List Rune) : List Rune :=
  if reversed.head? == some 10 then [] else lastParagraphFrom reversed

end TurtleLogo.Yaml
