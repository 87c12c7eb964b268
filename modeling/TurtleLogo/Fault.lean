import TurtleLogo.Token
import TurtleLogo.Text.Quoted

/-!
What can be wrong with a source text, and how it is reported: the place, the reason,
and the source line with the culprit underlined.
-/
namespace TurtleLogo
open Text

/-- Quotes the line of a place and underlines `width` runes from its column. Columns and widths
    beyond the line are cut back to it; a place outside the text quotes nothing. -/
def codeFrame (source : Bytes) (pos : Position) (width : Nat) : Bytes :=
  if source.isEmpty || pos.line == 0 then []
  else match (lines source)[pos.line - 1]? with
    | none => []
    | some line =>
      let shown := withoutReturns line
      let count := runeCount shown
      let column := min (max pos.column 1) (count + 1)
      let carets := min (max width 1) (max (count + 1 - column) 1)
      let gutter := decimal pos.line
      utf8 "  --> line " ++ gutter ++ utf8 ", column " ++ decimal column ++ [newline] ++
        [space] ++ gutter ++ utf8 " | " ++ shown ++ [newline] ++
        [space] ++ List.replicate gutter.length space ++ utf8 " | " ++
        List.replicate (column - 1) space ++ List.replicate carets (byte '^')

inductive Expected where
  | kind (k : TokenKind)
  | blockOrProcedure
  | comparison
  | argument (procedure : Bytes)
  deriving DecidableEq, Repr

inductive Reason where
  | unexpected
  | expected (what : Expected)
  | invalidNumber
  deriving DecidableEq, Repr

/-- The offending token, whose place is the error's place, and what is wrong with it. -/
structure ParseError where
  token : Token
  reason : Reason
  deriving DecidableEq, Repr

inductive Fault where
  | lex (error : LexError)
  | parse (error : ParseError)
  deriving DecidableEq, Repr

structure CompileError where
  source : Bytes
  faults : List Fault
  deriving DecidableEq, Repr

def Expected.text : Expected → Bytes
  | kind k => k.label
  | blockOrProcedure => utf8 "'[' or procedure name"
  | comparison => utf8 "comparison operator"
  | argument procedure => utf8 "argument for " ++ procedure

def ParseError.detail (e : ParseError) : Bytes :=
  match e.reason with
  | .unexpected => utf8 "unexpected token " ++ e.token.kind.label
  | .expected what => utf8 "expected " ++ what.text ++ utf8 ", got " ++ e.token.kind.label
  | .invalidNumber => utf8 "invalid number " ++ quoted e.token.literal

def LexError.detail (e : LexError) : Bytes := utf8 "unexpected input " ++ quoted e.text

def Fault.pos : Fault → Position
  | lex e => e.pos
  | parse e => e.token.pos

def Fault.detail : Fault → Bytes
  | lex e => e.detail
  | parse e => e.detail

def Fault.culprit : Fault → Bytes
  | lex e => e.text
  | parse e => e.token.literal

def Fault.stage : Fault → Bytes
  | lex _ => utf8 "lex error"
  | parse _ => utf8 "parse error"

def withFrame (text frame : Bytes) : Bytes :=
  if frame.isEmpty then text else text ++ newline :: frame

def Fault.message (source : Bytes) (f : Fault) : Bytes :=
  withFrame
    (f.stage ++ utf8 " at " ++ decimal f.pos.line ++ [byte ':'] ++ decimal f.pos.column ++
      utf8 ": " ++ f.detail)
    (codeFrame source f.pos (runeCount f.culprit))

def CompileError.message (e : CompileError) : Bytes :=
  joined (utf8 "\n\n") (e.faults.map (Fault.message e.source))

end TurtleLogo
