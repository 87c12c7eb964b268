import TurtleLogo.Yaml.Cursor

/-!
The tokens of YAML. Where a block mapping or sequence begins and ends is not written but
follows from indentation, and has tokens of its own all the same.
-/
namespace TurtleLogo.Yaml
open Text

inductive TokenKind where
  | streamStart
  | streamEnd
  | versionDirective (major minor : Nat)
  | tagDirective (handle expansion : Bytes)
  | documentStart
  | documentEnd
  | blockSequenceStart
  | blockMappingStart
  | blockEnd
  | flowSequenceStart
  | flowSequenceEnd
  | flowMappingStart
  | flowMappingEnd
  | blockEntry
  | flowEntry
  | key
  | value
  | reference (name : Bytes)
  | anchor (name : Bytes)
  | tag (handle suffix : Bytes)
  | scalar (plain : Bool) (text : Bytes)
  deriving DecidableEq, Repr

/-- A token and the index and line at which it begins. Lines count from zero. -/
structure Token where
  kind : TokenKind
  index : Nat
  line : Nat
  deriving DecidableEq, Repr

def Token.begun (kind : TokenKind) (place : Mark) : Token := ⟨kind, place.index, place.line⟩

def takeName : Reader Bytes := do
  let begun ← mark
  skip
  let name ← takeWhile isNameRune
  let r ← ahead 0
  if name.isEmpty || !(isSpaceOrEnd r || isAmong "?:,]\x7d%@" r || r == 0x60) then
    fail begun "did not find expected alphabetic or numeric character"
  else return ofRunes name

/-- The handle of a tag: an exclamation mark, a name and, in a directive always, another mark. A
    lone mark is a handle too. -/
def takeHandle (directive : Bool) (begun : Mark) : Reader Bytes := do
  need 1
  if (← ahead 0) != rune '!' then fail begun "did not find expected '!'"
  skip
  let name ← takeWhile isNameRune
  if (← ahead 0) == rune '!' then
    skip
    return utf8 "!" ++ ofRunes name ++ utf8 "!"
  else if directive && !name.isEmpty then fail begun "did not find expected '!'"
  else return utf8 "!" ++ ofRunes name

def octetAhead (begun : Mark) : Reader UInt8 := do
  need 3
  let c ← get
  match c.ahead 0 == rune '%', hexRuneValue? (c.ahead 1), hexRuneValue? (c.ahead 2) with
  | true, some high, some low => return (16 * high + low).toUInt8
  | _, _, _ => fail begun "did not find URI escaped octet"

def takeTailOctets (begun : Mark) : Nat → Reader Bytes
  | 0 => return []
  | n + 1 => do
    let octet ← octetAhead begun
    if isTail octet then
      skipRunes 3
      return octet :: (← takeTailOctets begun n)
    else fail begun "found an incorrect trailing UTF-8 octet"

def takeOctets (begun : Mark) : Reader Bytes := do
  let lead ← octetAhead begun
  match announcedWidth? lead with
  | none => fail begun "found an incorrect leading UTF-8 octet"
  | some width =>
    skipRunes 3
    return lead :: (← takeTailOctets begun (width - 1))

def isUriRune (r : Rune) : Bool := isNameRune r || isAmong ";/?:@&=+$,.!~*'()[]%" r

def takeUriWithin (begun : Mark) : Nat → Reader Bytes
  | 0 => return []
  | n + 1 => do
    need 1
    let r ← ahead 0
    if r == rune '%' then
      let octets ← takeOctets begun
      return octets ++ (← takeUriWithin begun n)
    else if isUriRune r then
      skip
      return encode r ++ (← takeUriWithin begun n)
    else return []

def takeUri (begun : Mark) : Reader Bytes := do takeUriWithin begun ((← get).left + 1)

def takeSomeUri (begun : Mark) : Reader Bytes := do
  need 1
  if isUriRune (← ahead 0) then takeUri begun else fail begun "did not find expected tag URI"

/-- The handle and the suffix of a tag. A tag in angle brackets has no handle, and neither has a
    lone exclamation mark. -/
def takeTag : Reader (Bytes × Bytes) := do
  let begun ← mark
  need 2
  let tag ←
    if (← ahead 1) == rune '<' then do
      skipRunes 2
      let suffix ← takeSomeUri begun
      if (← ahead 0) != rune '>' then fail begun "did not find the expected '>'"
      skip
      pure ([], suffix)
    else do
      let handle ← takeHandle false begun
      if 1 < handle.length && handle.getLast? == some (byte '!') then
        pure (handle, ← takeSomeUri begun)
      else
        let suffix := handle.drop 1 ++ (← takeUri begun)
        pure (if suffix.isEmpty then ([], handle) else (utf8 "!", suffix))
  need 1
  if !isSpaceOrEnd (← ahead 0) then fail begun "did not find expected whitespace or line break"
  return tag

def takeVersionNumber (begun : Mark) : Nat → (value count : Nat) → Reader Nat
  | 0, value, _ => return value
  | n + 1, value, count => do
    need 1
    let r ← ahead 0
    if isDigitRune r then
      if count == 2 then fail begun "found extremely long version number"
      else
        skip
        takeVersionNumber begun n (10 * value + (r - 48)) (count + 1)
    else if count == 0 then fail begun "did not find expected version number"
    else return value

def takeVersion (begun : Mark) : Reader TokenKind := do
  skipGaps
  let major ← takeVersionNumber begun 4 0 0
  if (← ahead 0) != rune '.' then fail begun "did not find expected digit or '.' character"
  skip
  let minor ← takeVersionNumber begun 4 0 0
  return .versionDirective major minor

def takeTagDirective (begun : Mark) : Reader TokenKind := do
  skipGaps
  let handle ← takeHandle true begun
  need 1
  if !isGap (← ahead 0) then fail begun "did not find expected whitespace"
  skipGaps
  let expansion ← takeSomeUri begun
  need 1
  if !isSpaceOrEnd (← ahead 0) then fail begun "did not find expected whitespace or line break"
  return .tagDirective handle expansion

def takeDirective : Reader TokenKind := do
  let begun ← mark
  skip
  let name ← takeWhile isNameRune
  if name.isEmpty then fail begun "could not find expected directive name"
  if !isSpaceOrEnd (← ahead 0) then fail begun "found unexpected non-alphabetical character"
  let kind ←
    if ofRunes name == utf8 "YAML" then takeVersion begun
    else if ofRunes name == utf8 "TAG" then takeTagDirective begun
    else fail begun "found unknown directive name"
  skipGaps
  if (← ahead 0) == rune '#' then skipLine
  if !isBreakOrEnd (← ahead 0) then fail begun "did not find expected comment or line break"
  skipBreak
  return kind

end TurtleLogo.Yaml
