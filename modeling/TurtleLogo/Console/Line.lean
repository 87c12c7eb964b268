import TurtleLogo.Files
import TurtleLogo.Text.Class

/-!
The input line of the console and the cursor in it. A line holds a bounded number of runes
and no control characters; tabs and line ends become spaces.
-/
namespace TurtleLogo.Console
open Text Files

/-- A line by what is before the cursor and what is behind it. -/
structure Line where
  before : List Rune
  behind : List Rune
  deriving DecidableEq, Repr

inductive Edit where
  | nothing
  | back | ahead | toStart | toEnd | wordBack | wordAhead
  | eraseBack | eraseAhead | eraseWordBack | eraseWordAhead | eraseToStart
  deriving DecidableEq, Repr

def Edit.names : List (String × Edit) :=
  [("left", back), ("ctrl+b", back), ("right", ahead), ("ctrl+f", ahead), ("home", toStart),
   ("ctrl+a", toStart), ("end", toEnd), ("ctrl+e", toEnd), ("alt+left", wordBack),
   ("ctrl+left", wordBack), ("alt+b", wordBack), ("alt+right", wordAhead),
   ("ctrl+right", wordAhead), ("alt+f", wordAhead), ("backspace", eraseBack),
   ("ctrl+h", eraseBack), ("delete", eraseAhead), ("alt+backspace", eraseWordBack),
   ("ctrl+w", eraseWordBack), ("alt+delete", eraseWordAhead), ("alt+d", eraseWordAhead),
   ("ctrl+u", eraseToStart), ("ctrl+n", nothing), ("ctrl+p", nothing)]

def Edit.named? (text : Bytes) : Option Edit :=
  names.findSome? fun (name, edit) => if utf8 name == text then some edit else none

namespace Line

def limit : Nat := 500

def empty : Line := ⟨[], []⟩

def runes (l : Line) : List Rune := l.before ++ l.behind

def text (l : Line) : Bytes := ofRunes l.runes

def isControl (r : Rune) : Bool := r < 32 || (127 ≤ r && r ≤ 159)

def admitted? (r : Rune) : Option Rune :=
  if r == 9 || r == 10 || r == 13 then some 32
  else if r == replacement || isControl r then none
  else some r

def admitted (text : Bytes) : List Rune := (Text.runes text).filterMap admitted?

/-- Puts a text in place of what the line holds. The cursor stays where it is as long as the text
    reaches that far, but goes to its end if the line was empty. -/
def set (l : Line) (text : Bytes) : Line :=
  let rs := (admitted text).take limit
  let place := if l.runes.isEmpty then limit else l.before.length
  if rs.length < place then ⟨rs, []⟩ else ⟨rs.take place, rs.drop place⟩

def insert (l : Line) (text : Bytes) : Line :=
  { l with before := l.before ++ (admitted text).take (limit - l.runes.length) }

def toStart (l : Line) : Line := ⟨[], l.runes⟩

def toEnd (l : Line) : Line := ⟨l.runes, []⟩

def back (l : Line) (count : Nat) : Line :=
  let place := l.before.length - count
  ⟨l.before.take place, l.before.drop place ++ l.behind⟩

def ahead (l : Line) (count : Nat) : Line :=
  ⟨l.before ++ l.behind.take count, l.behind.drop count⟩

def wordLength (rs : List Rune) : Nat :=
  rs.length - ((rs.dropWhile isBlank).dropWhile (!isBlank ·)).length

/-- A text without its last word and the blanks behind it. The blank before the word stays, unless
    the text begins with it. -/
def withoutLastWord : List Rune → List Rune
  | [] => []
  | first :: rest =>
    match (rest.reverse.dropWhile isBlank).dropWhile (!isBlank ·) with
    | [] => []
    | kept => first :: kept.reverse

/-- Erases the word behind the cursor, which the first rune there always belongs to. Where that is
    the only one the next is looked for in vain. -/
def eraseWordAhead (l : Line) : Plan Line :=
  match l.behind with
  | [] => return l
  | [_] =>
    let length := decimal l.runes.length
    .halt (utf8 "runtime error: index out of range [" ++ length ++ utf8 "] with length " ++ length)
  | _ :: rest => return { l with behind := rest.drop (wordLength rest) }

def edited (l : Line) : Edit → Plan Line
  | .nothing => return l
  | .back => return l.back 1
  | .ahead => return l.ahead 1
  | .toStart => return l.toStart
  | .toEnd => return l.toEnd
  | .wordBack => return l.back (wordLength l.before.reverse)
  | .wordAhead => return l.ahead (wordLength l.behind)
  | .eraseBack => return { l with before := l.before.dropLast }
  | .eraseAhead => return { l with behind := l.behind.drop 1 }
  | .eraseWordBack => return { l with before := withoutLastWord l.before }
  | .eraseWordAhead => l.eraseWordAhead
  | .eraseToStart => return { l with before := [] }

/-- The line after a text was typed. A text that names a key for editing counts as that key. -/
def typed (l : Line) (text : Bytes) : Plan Line :=
  match Edit.named? text with
  | some edit => l.edited edit
  | none => return l.insert text

end Line
end TurtleLogo.Console
