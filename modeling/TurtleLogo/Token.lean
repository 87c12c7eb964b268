import TurtleLogo.Position

/-!
Tokens of the language: their kinds, the categories that group kinds for the grammar,
the reserved words, and how a token changes the depth of open blocks.
-/
namespace TurtleLogo
open Text

inductive TokenKind where
  | illegal | eof | whitespace | comment
  | number | varName | paramName | identifier
  | plus | minus | asterisk | slash
  | equal | notEqual | greater | less
  | leftParen | rightParen | leftBracket | rightBracket
  | define | endDefine | make | loop | test | stop | output | home | setXY | setHeading | random
  | forward | back | left | right | penUp | penDown
  deriving DecidableEq, Repr

/-- A set of groups of token kinds, one bit for each group. -/
abbrev Category := UInt16

namespace Category

def keyword : Category := 1

def movement : Category := 2

def direction : Category := 4

def penToggle : Category := 8

def addition : Category := 16

def multiplication : Category := 32

def comparison : Category := 64

end Category

namespace TokenKind

def all : List TokenKind :=
  [illegal, eof, whitespace, comment, number, varName, paramName, identifier,
   plus, minus, asterisk, slash, equal, notEqual, greater, less,
   leftParen, rightParen, leftBracket, rightBracket,
   define, endDefine, make, loop, test, stop, output, home, setXY, setHeading, random,
   forward, back, left, right, penUp, penDown]

def name : TokenKind → String
  | illegal => "ILLEGAL"
  | eof => "EOF"
  | whitespace => "WHITESPACE"
  | comment => "COMMENT"
  | number => "NUMBER"
  | varName => "VAR"
  | paramName => "PARAM"
  | identifier => "IDENT"
  | plus => "+"
  | minus => "-"
  | asterisk => "*"
  | slash => "/"
  | equal => "="
  | notEqual => "!="
  | greater => ">"
  | less => "<"
  | leftParen => "("
  | rightParen => ")"
  | leftBracket => "["
  | rightBracket => "]"
  | define => "TO"
  | endDefine => "END"
  | make => "MAKE"
  | loop => "REPEAT"
  | test => "IF"
  | stop => "STOP"
  | output => "OUTPUT"
  | home => "HOME"
  | setXY => "SETXY"
  | setHeading => "SETHEADING"
  | random => "RANDOM"
  | forward => "FORWARD"
  | back => "BACK"
  | left => "LEFT"
  | right => "RIGHT"
  | penUp => "PENUP"
  | penDown => "PENDOWN"

def named? (text : Bytes) : Option TokenKind := all.find? fun k => utf8 k.name == text

def categories : TokenKind → Category
  | forward | back => Category.keyword ||| Category.movement
  | left | right => Category.keyword ||| Category.direction
  | penUp | penDown => Category.keyword ||| Category.penToggle
  | define | endDefine | make | loop | test | stop | output | home | setXY | setHeading | random =>
    Category.keyword
  | plus | minus => Category.addition
  | asterisk | slash => Category.multiplication
  | equal | notEqual | greater | less => Category.comparison
  | _ => 0

def isIn (k : TokenKind) (c : Category) : Bool := k.categories &&& c == c && c != 0

def nesting : TokenKind → Int
  | leftBracket | define => 1
  | rightBracket | endDefine => -1
  | _ => 0

def keywordTable : List (TokenKind × List String) :=
  [(define, ["to"]), (endDefine, ["end"]), (make, ["make"]), (loop, ["repeat"]), (test, ["if"]),
   (stop, ["stop"]), (output, ["output"]), (home, ["home"]), (setXY, ["setxy"]),
   (setHeading, ["setheading", "seth"]), (random, ["random"]), (penUp, ["penup", "pu"]),
   (penDown, ["pendown", "pd"]), (left, ["left", "lt"]), (right, ["right", "rt"]),
   (forward, ["forward", "fd"]), (back, ["back", "bk"])]

def label (k : TokenKind) : Bytes :=
  match k with
  | illegal => utf8 "invalid token"
  | eof => utf8 "end of input"
  | number => utf8 "number"
  | varName => utf8 "variable"
  | paramName => utf8 "parameter"
  | identifier => utf8 "identifier"
  | _ =>
    if k.isIn Category.keyword then apostrophe :: (utf8 k.name).map lowered ++ [apostrophe]
    else doubleQuote :: utf8 k.name ++ [doubleQuote]

end TokenKind

def nameIsIn (name : Bytes) (c : Category) : Bool :=
  match TokenKind.named? name with
  | some k => k.isIn c
  | none => false

def nestingOfName (name : Bytes) : Int :=
  match TokenKind.named? name with
  | some k => k.nesting
  | none => 0

def keywords : List Bytes :=
  sorted (TokenKind.keywordTable.flatMap fun entry => entry.2.map utf8)

structure Token where
  kind : TokenKind
  literal : Bytes
  pos : Position
  deriving DecidableEq, Repr

/-- A maximal run of input in which no token begins. -/
structure LexError where
  pos : Position
  text : Bytes
  deriving DecidableEq, Repr

end TurtleLogo
