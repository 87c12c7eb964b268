import TurtleLogo.Text.Rune

/-!
The characters of a YAML text. They are written in UTF-8, or in UTF-16 if the text begins
with a byte order mark of that encoding, and control characters are not allowed. A text is
taken in by windows of 512 bytes, so a window that cannot be read shows as soon as its first
character is asked for.
-/
namespace TurtleLogo.Yaml
open Text

inductive Encoding where
  | ofBytes
  | ofUnits (bigEndian : Bool)
  deriving DecidableEq, Repr

/-- What a text begins with. A character that is wrong is known to be so from its first `width`
    bytes. -/
inductive Beginning where
  | character (rune : Rune) (width : Nat)
  | cut (problem : String)
  | wrong (problem : String) (width : Nat)
  deriving DecidableEq, Repr

def isAllowed (r : Rune) : Bool :=
  r == 9 || r == 10 || r == 13 || (32 ≤ r && r ≤ 126) || r == 0x85 || (0xA0 ≤ r && r ≤ 0xD7FF) ||
    (0xE000 ≤ r && r ≤ 0xFFFD) || (0x10000 ≤ r && r ≤ 0x10FFFF)

def Beginning.ofRune (r : Rune) (width : Nat) : Beginning :=
  if isAllowed r then character r width else wrong "control characters are not allowed" width

def announcedWidth? (lead : UInt8) : Option Nat :=
  if lead < 0x80 then some 1
  else if 0xC0 ≤ lead && lead < 0xE0 then some 2
  else if 0xE0 ≤ lead && lead < 0xF0 then some 3
  else if 0xF0 ≤ lead && lead < 0xF8 then some 4
  else none

def leadBits (lead : UInt8) (width : Nat) : Nat :=
  if width == 1 then lead.toNat
  else if width == 2 then lead.toNat % 32
  else if width == 3 then lead.toNat % 16
  else lead.toNat % 8

def leastOfWidth (width : Nat) : Rune :=
  if width == 1 then 0 else if width == 2 then 0x80 else if width == 3 then 0x800 else 0x10000

def beginningOfBytes (text : Bytes) : Beginning :=
  let lead := text.headD 0
  match announcedWidth? lead with
  | none => .wrong "invalid leading UTF-8 octet" 1
  | some width =>
    let tail := (text.take width).drop 1
    let r := tail.foldl (fun n b => n * 64 + tailBits b) (leadBits lead width)
    if tail.length + 1 < width then .cut "incomplete UTF-8 octet sequence"
    else if !tail.all isTail then .wrong "invalid trailing UTF-8 octet" width
    else if r < leastOfWidth width then .wrong "invalid length of a UTF-8 sequence" width
    else if isSurrogate r || 0x10FFFF < r then .wrong "invalid Unicode character" width
    else .ofRune r width

def unitOf (bigEndian : Bool) (a b : UInt8) : Nat :=
  if bigEndian then 256 * a.toNat + b.toNat else 256 * b.toNat + a.toNat

def isHighSurrogate (unit : Nat) : Bool := 0xD800 ≤ unit && unit ≤ 0xDBFF

def isLowSurrogate (unit : Nat) : Bool := 0xDC00 ≤ unit && unit ≤ 0xDFFF

def beginningOfUnits (bigEndian : Bool) : Bytes → Beginning
  | a :: b :: rest =>
    let unit := unitOf bigEndian a b
    if isLowSurrogate unit then .wrong "unexpected low surrogate area" 2
    else if isHighSurrogate unit then
      match rest with
      | c :: d :: _ =>
        let low := unitOf bigEndian c d
        if isLowSurrogate low then .ofRune (0x10000 + unit % 1024 * 1024 + low % 1024) 4
        else .wrong "expected low surrogate area" 4
      | _ => .cut "incomplete UTF-16 surrogate pair"
    else .ofRune unit 2
  | _ => .cut "incomplete UTF-16 character"

def beginning (e : Encoding) (text : Bytes) : Beginning :=
  match e with
  | .ofBytes => beginningOfBytes text
  | .ofUnits bigEndian => beginningOfUnits bigEndian text

structure Characters where
  windows : List (List Rune)
  problem : Option String
  deriving DecidableEq, Repr

def Characters.length (cs : Characters) : Nat :=
  cs.windows.foldl (fun count window => count + window.length) 0

def windowSize : Nat := 512

/-- The characters of a text after its first `skip` bytes. `full` holds the windows before the
    current one and `fresh` what precedes in that one, both the last one first. It takes up `used`
    bytes. -/
def charactersFrom (e : Encoding) (full : List (List Rune)) (fresh : List Rune) :
    (used skip : Nat) → Bytes → Characters
  | _, _, [] => ⟨(fresh.reverse :: full).reverse, none⟩
  | used, skip + 1, _ :: rest => charactersFrom e full fresh used skip rest
  | used, 0, b :: rest =>
    match beginning e (b :: rest) with
    | .character r width =>
      if used + width ≤ windowSize then
        charactersFrom e full (r :: fresh) (used + width) (width - 1) rest
      else charactersFrom e (fresh.reverse :: full) [r] width (width - 1) rest
    | .cut problem => ⟨([] :: fresh.reverse :: full).reverse, some problem⟩
    | .wrong problem width =>
      let windows := fresh.reverse :: full
      ⟨(if used + width ≤ windowSize then windows else [] :: windows).reverse, some problem⟩

def characters (text : Bytes) : Characters :=
  match text with
  | 0xFF :: 0xFE :: _ => charactersFrom (.ofUnits false) [] [] 2 2 text
  | 0xFE :: 0xFF :: _ => charactersFrom (.ofUnits true) [] [] 2 2 text
  | 0xEF :: 0xBB :: 0xBF :: _ => charactersFrom .ofBytes [] [] 3 3 text
  | _ => charactersFrom .ofBytes [] [] 0 0 text

end TurtleLogo.Yaml
