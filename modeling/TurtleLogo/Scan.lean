import TurtleLogo.Token

/-!
Source text cut into tokens. At each place the longest match of any pattern is taken,
and of equally long ones the first in the table, so reserved words win over
identifiers of the same spelling. Runs in which no pattern matches are set apart and
reported, and scanning goes on behind them.
-/
namespace TurtleLogo
open Text

namespace Scan

/-- How many bytes at the beginning of a text a pattern takes; zero where it does not match. -/
structure Pattern where
  kind : TokenKind
  width : Bytes → Nat

def run (p : UInt8 → Bool) (text : Bytes) : Nat := (text.takeWhile p).length

def isSpace (b : UInt8) : Bool := b == 9 || b == 10 || b == 12 || b == 13 || b == 32

def isNameStart (b : UInt8) : Bool := isLetter b || b == byte '_'

def isNamePart (b : UInt8) : Bool := isNameStart b || isDigit b

def spellingWidth (word : String) (text : Bytes) : Nat :=
  if (utf8 word).isPrefixOf text then (utf8 word).length else 0

def keywordWidth (spellings : List String) (text : Bytes) : Nat :=
  spellings.foldl (fun n word => max n (spellingWidth word text)) 0

def commentWidth : Bytes → Nat
  | [] => 0
  | b :: rest => if b == byte ';' then 1 + run (· != newline) rest else 0

def fractionWidth : Bytes → Nat
  | [] => 0
  | b :: rest => if b == byte '.' && 0 < run isDigit rest then 1 + run isDigit rest else 0

def numberWidth (text : Bytes) : Nat :=
  run isDigit text + fractionWidth (text.drop (run isDigit text))

def nameWidth : Bytes → Nat
  | [] => 0
  | b :: rest => if isNameStart b then 1 + run isNamePart rest else 0

def sigilWidth (sigil : UInt8) : Bytes → Nat
  | [] => 0
  | b :: rest => if b == sigil && 0 < nameWidth rest then 1 + nameWidth rest else 0

def patterns : List Pattern :=
  [⟨.whitespace, run isSpace⟩, ⟨.comment, commentWidth⟩] ++
  TokenKind.keywordTable.map (fun entry => ⟨entry.1, keywordWidth entry.2⟩) ++
  [⟨.leftBracket, spellingWidth "["⟩, ⟨.rightBracket, spellingWidth "]"⟩,
   ⟨.leftParen, spellingWidth "("⟩, ⟨.rightParen, spellingWidth ")"⟩,
   ⟨.plus, spellingWidth "+"⟩, ⟨.minus, spellingWidth "-"⟩,
   ⟨.asterisk, spellingWidth "*"⟩, ⟨.slash, spellingWidth "/"⟩,
   ⟨.notEqual, spellingWidth "!="⟩, ⟨.equal, spellingWidth "="⟩,
   ⟨.greater, spellingWidth ">"⟩, ⟨.less, spellingWidth "<"⟩,
   ⟨.number, numberWidth⟩, ⟨.varName, sigilWidth doubleQuote⟩, ⟨.paramName, sigilWidth (byte ':')⟩,
   ⟨.identifier, nameWidth⟩]

structure Match where
  kind : TokenKind
  width : Nat
  deriving DecidableEq, Repr

def Match.longer (text : Bytes) (best : Match) (p : Pattern) : Match :=
  if best.width < p.width text then ⟨p.kind, p.width text⟩ else best

/-- The first of the longest matches; an illegal one of no width where no pattern matches. -/
def longestMatch (text : Bytes) : Match := patterns.foldl (Match.longer text) ⟨.illegal, 0⟩

structure Piece where
  kind : TokenKind
  text : Bytes
  deriving DecidableEq, Repr

def consIllegal (rune : Bytes) : List Piece → List Piece
  | [] => [⟨.illegal, rune⟩]
  | p :: rest =>
    if p.kind == .illegal then ⟨.illegal, rune ++ p.text⟩ :: rest else ⟨.illegal, rune⟩ :: p :: rest

def piecesFrom : (skip : Nat) → Bytes → List Piece
  | _, [] => []
  | skip + 1, _ :: rest => piecesFrom skip rest
  | 0, b :: rest =>
    let best := longestMatch (b :: rest)
    if best.width == 0 then
      let width := (firstRune (b :: rest)).width
      consIllegal ((b :: rest).take width) (piecesFrom (width - 1) rest)
    else ⟨best.kind, (b :: rest).take best.width⟩ :: piecesFrom (best.width - 1) rest

/-- A partition of the text: no byte is lost or taken twice. -/
def pieces (text : Bytes) : List Piece := piecesFrom 0 text

end Scan

/-- The tokens of a text, the runs that hold none, and the place where the text ends. -/
structure Lexed where
  tokens : List Token
  errors : List LexError
  finish : Position
  deriving DecidableEq, Repr

namespace Lexed

def ofPieces (p : Position) : List Scan.Piece → Lexed
  | [] => ⟨[], [], p⟩
  | piece :: rest =>
    let tail := ofPieces (p.after piece.text) rest
    match piece.kind with
    | .whitespace | .comment => tail
    | .illegal => { tail with errors := ⟨p, piece.text⟩ :: tail.errors }
    | kind => { tail with tokens := ⟨kind, piece.text, p⟩ :: tail.tokens }

def endToken (l : Lexed) : Token := ⟨.eof, [], l.finish⟩

def allTokens (l : Lexed) : List Token := l.tokens ++ [l.endToken]

end Lexed

def tokenize (source : Bytes) : Lexed := Lexed.ofPieces Position.start (Scan.pieces source)

/-- The blocks and definitions that a text leaves open, negative where it closes more. -/
def openDepth (source : Bytes) : Int :=
  (tokenize source).tokens.foldl (fun depth t => depth + t.kind.nesting) 0

end TurtleLogo
