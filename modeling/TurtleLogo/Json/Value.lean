import TurtleLogo.Text.Rune

/-!
JSON values that keep their spelling: numbers hold their literal, strings the text
between their quotes, and objects their members in order. A value can therefore be
handed back exactly as it came.
-/
namespace TurtleLogo
open Text

inductive Json where
  | null
  | bool (value : Bool)
  | number (literal : Bytes)
  | string (raw : Bytes)
  | array (items : List Json)
  | object (members : List (Bytes × Json))

namespace Json

/-- The escaped form of a byte or rune that a string cannot hold as it is. Angle brackets, the
    ampersand and the two line separators are escaped too, so that a text is safe inside HTML. -/
def escapedRune : Rune × Bytes → Bytes
  | (r, bytes) =>
    match r with
    | 34 | 92 => byte '\\' :: bytes
    | 8 => utf8 "\\b"
    | 9 => utf8 "\\t"
    | 10 => utf8 "\\n"
    | 12 => utf8 "\\f"
    | 13 => utf8 "\\r"
    | _ =>
      if r < 0x20 || r == 0x3C || r == 0x3E || r == 0x26 || r == 0x2028 || r == 0x2029 then
        utf8 "\\u" ++ hex 4 r
      else if r == replacement && bytes.length == 1 then utf8 "\\ufffd"
      else bytes

def ofText (text : Bytes) : Json := .string ((runePieces text).flatMap escapedRune)

def ofNat (n : Nat) : Json := .number (decimal n)

def ofInt (i : Int) : Json := .number (signedDecimal i)

def ofMembers (members : List (String × Json)) : Json :=
  .object (members.map fun (k, v) => (utf8 k, v))

def safeRune : Rune × Bytes → Bytes
  | (r, bytes) =>
    if r == 0x3C || r == 0x3E || r == 0x26 || r == 0x2028 || r == 0x2029 then utf8 "\\u" ++ hex 4 r
    else bytes

def quotedRaw (raw : Bytes) : Bytes :=
  doubleQuote :: (runePieces raw).flatMap safeRune ++ [doubleQuote]

mutual

/-- The value without blanks between its parts, and then `rest`. -/
def renderBefore (rest : Bytes) : Json → Bytes
  | null => utf8 "null" ++ rest
  | bool value => utf8 (if value then "true" else "false") ++ rest
  | number literal => literal ++ rest
  | string raw => quotedRaw raw ++ rest
  | array items => byte '[' :: renderItems (byte ']' :: rest) items
  | object members => byte '{' :: renderMembers (byte '}' :: rest) members

def renderItems (rest : Bytes) : List Json → Bytes
  | [] => rest
  | [item] => renderBefore rest item
  | item :: next :: more => renderBefore (byte ',' :: renderItems rest (next :: more)) item

def renderMembers (rest : Bytes) : List (Bytes × Json) → Bytes
  | [] => rest
  | [(key, value)] => quotedRaw key ++ byte ':' :: renderBefore rest value
  | (key, value) :: next :: more =>
    quotedRaw key ++ byte ':' :: renderBefore (byte ',' :: renderMembers rest (next :: more)) value

end

def render (j : Json) : Bytes := renderBefore [] j

end Json
end TurtleLogo
