import TurtleLogo.Text.Printable

/-!
Quoted texts. Printable runes stand for themselves; quotes, backslashes, the named
control characters, other runes and stray bytes are escaped.
-/
namespace TurtleLogo.Text

def controlLetter? (r : Rune) : Option Char :=
  match r with
  | 7 => some 'a'
  | 8 => some 'b'
  | 9 => some 't'
  | 10 => some 'n'
  | 11 => some 'v'
  | 12 => some 'f'
  | 13 => some 'r'
  | _ => none

def quotedRune : Rune × Bytes → Bytes
  | (r, bytes) =>
    if r == 34 || r == 92 then byte '\\' :: bytes
    else if r == replacement && bytes.length == 1 then
      utf8 "\\x" ++ bytes.flatMap fun b => hex 2 b.toNat
    else if isPrintable r then bytes
    else match controlLetter? r with
      | some c => [byte '\\', byte c]
      | none =>
        if r < 0x80 then utf8 "\\x" ++ hex 2 r
        else if r < 0x10000 then utf8 "\\u" ++ hex 4 r
        else utf8 "\\U" ++ hex 8 r

def quoted (text : Bytes) : Bytes :=
  doubleQuote :: (runePieces text).flatMap quotedRune ++ [doubleQuote]

end TurtleLogo.Text
