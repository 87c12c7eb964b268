import TurtleLogo.Fault
import TurtleLogo.Number.Decimal
import TurtleLogo.Program
import TurtleLogo.Scan

/-!
Programs read from tokens by recursive descent, with operators climbed by how tightly
they bind. A call of a procedure whose header has been read takes exactly its declared
number of arguments; a call of any other name takes arguments as long as they follow.

A top-level statement that fails is reported once; reading resumes at the next token
that can begin a statement outside every block the failed one left open.

The workers take fuel. Each production uses up a token within four calls, so the
wrappers compute fuel from the number of tokens left.
-/
namespace TurtleLogo
open Text

inductive Opener where
  | bracket | define
  deriving DecidableEq, Repr

/-- The innermost definition is closed together with the brackets left open in its body. -/
def closeDefine : List Opener → Option (List Opener)
  | [] => none
  | .define :: outer => some outer
  | .bracket :: outer => closeDefine outer

/-- The blocks open after a token, the innermost first. A bracket is closed only inside the
    innermost definition. -/
def track (k : TokenKind) (opened : List Opener) : List Opener :=
  match k, opened with
  | .leftBracket, _ => .bracket :: opened
  | .define, _ => .define :: opened
  | .rightBracket, .bracket :: outer => outer
  | .endDefine, _ => (closeDefine opened).getD opened
  | _, _ => opened

/-- Where reading stands: the tokens ahead, where the text ends, the blocks open here, and the
    number of parameters of every procedure whose header has been read, the latest first. -/
structure Cursor where
  rest : List Token
  finish : Position
  opened : List Opener
  arities : List (Name × Nat)
  deriving DecidableEq, Repr

namespace Cursor

def ofLexed (l : Lexed) : Cursor := ⟨l.tokens, l.finish, [], []⟩

def peek (c : Cursor) : Token :=
  match c.rest with
  | t :: _ => t
  | [] => ⟨.eof, [], c.finish⟩

def kind (c : Cursor) : TokenKind := c.peek.kind

def advance (c : Cursor) : Cursor :=
  match c.rest with
  | [] => c
  | t :: rest => { c with rest := rest, opened := track t.kind c.opened }

def declare (c : Cursor) (name : Name) (arity : Nat) : Cursor :=
  { c with arities := (name, arity) :: c.arities }

def arity? (c : Cursor) (name : Name) : Option Nat := c.arities.lookup name

def fuel (c : Cursor) : Nat := 4 * c.rest.length + 8

end Cursor

/-- A result with the place behind it, or an error with the place from which to resume. -/
inductive Parsed (α : Type) where
  | ok (value : α) (next : Cursor)
  | fail (error : ParseError) (resume : Cursor)

namespace Parsed

@[inline] def bind {α β : Type} (r : Parsed α) (f : α → Cursor → Parsed β) : Parsed β :=
  match r with
  | ok value next => f value next
  | fail error resume => fail error resume

@[inline] def map {α β : Type} (f : α → β) (r : Parsed α) : Parsed β :=
  match r with
  | ok value next => ok (f value) next
  | fail error resume => fail error resume

end Parsed

namespace Parse

/-- Rejects the next token and passes over it. -/
def unexpected {α : Type} (c : Cursor) : Parsed α := .fail ⟨c.peek, .unexpected⟩ c.advance

/-- Rejects the next token and stays in front of it. -/
def expected {α : Type} (what : Expected) (c : Cursor) : Parsed α :=
  .fail ⟨c.peek, .expected what⟩ c

def expect (k : TokenKind) (c : Cursor) : Parsed Token :=
  if c.kind == k then .ok c.peek c.advance else expected (.kind k) c

inductive Level where
  | lowest | sum | product | sign
  deriving DecidableEq, Repr

def Level.rank : Level → Nat
  | lowest => 1
  | sum => 2
  | product => 3
  | sign => 4

def levelOf : ArithOp → Level
  | .plus | .minus => .sum
  | .times | .dividedBy => .product

/-- Whether a token opens an argument of a call whose arity is not known. An identifier does not:
    it more often names the next call. -/
def startsArgument : TokenKind → Bool
  | .number | .paramName | .varName | .minus | .leftParen | .random => true
  | _ => false

mutual

/-- An expression made of operators that bind tighter than the level. -/
def expr : Nat → Level → Cursor → Parsed Expr
  | 0, _, c => unexpected c
  | n + 1, level, c => (operand n c).bind fun left c => operators n level left c

def operators : Nat → Level → Expr → Cursor → Parsed Expr
  | 0, _, _, c => unexpected c
  | n + 1, level, left, c =>
    match ArithOp.ofKind? c.kind with
    | none => .ok left c
    | some op =>
      if level.rank < (levelOf op).rank then
        (expr n (levelOf op) c.advance).bind fun right c =>
          operators n level (.binary op left right) c
      else .ok left c

def operand : Nat → Cursor → Parsed Expr
  | 0, c => unexpected c
  | n + 1, c =>
    let t := c.peek
    match t.kind with
    | .number =>
      match Number.ofLiteral? t.literal with
      | some value => .ok (.number t.pos value) c.advance
      | none => .fail ⟨t, .invalidNumber⟩ c.advance
    | .paramName => .ok (.param t.pos (t.literal.drop 1)) c.advance
    | .varName => .ok (.var t.pos (t.literal.drop 1)) c.advance
    | .minus => (expr n .sign c.advance).map (.negate t.pos)
    | .leftParen =>
      (expr n .lowest c.advance).bind fun inner c =>
        (expect .rightParen c).map fun _ => .group t.pos inner
    | .random => (expr n .lowest c.advance).map (.random t.pos)
    | .identifier => (arguments n t.literal c.advance).map (.call t.pos t.literal)
    | _ => unexpected c

def arguments : Nat → Name → Cursor → Parsed (List Expr)
  | 0, _, c => unexpected c
  | n + 1, name, c =>
    match c.arity? name with
    | some arity => exactArguments n name arity c
    | none => openArguments n c

def exactArguments : Nat → Name → Nat → Cursor → Parsed (List Expr)
  | 0, _, _, c => unexpected c
  | _ + 1, _, 0, c => .ok [] c
  | n + 1, name, arity + 1, c =>
    if startsArgument c.kind || c.kind == .identifier then
      (expr n .lowest c).bind fun arg c => (exactArguments n name arity c).map (arg :: ·)
    else expected (.argument name) c

def openArguments : Nat → Cursor → Parsed (List Expr)
  | 0, c => unexpected c
  | n + 1, c =>
    if startsArgument c.kind then
      (expr n .lowest c).bind fun arg c => (openArguments n c).map (arg :: ·)
    else .ok [] c

end

def expression (c : Cursor) : Parsed Expr := expr c.fuel .lowest c

def parameters : Nat → Cursor → Parsed (List Name)
  | 0, c => .ok [] c
  | n + 1, c =>
    if c.kind == .paramName then
      (parameters n c.advance).map (c.peek.literal.drop 1 :: ·)
    else .ok [] c

mutual

def statement : Nat → Cursor → Parsed Stmt
  | 0, c => unexpected c
  | n + 1, c =>
    let t := c.peek
    let next := c.advance
    match t.kind with
    | .define =>
      (expect .identifier next).bind fun name c =>
        (parameters c.rest.length c).bind fun params c =>
          (statementsUntil n .endDefine (c.declare name.literal params.length)).map
            (.define t.pos name.literal name.pos params)
    | .make =>
      (expect .varName next).bind fun name c =>
        (expression c).map (.make t.pos (name.literal.drop 1))
    | .loop =>
      (expression next).bind fun count c =>
        match c.kind with
        | .leftBracket => (statementsUntil n .rightBracket c.advance).map (.loop t.pos count)
        | .identifier => .ok (.loopCall t.pos count c.peek.literal) c.advance
        | _ => expected .blockOrProcedure c
    | .test =>
      (expression next).bind fun left c =>
        match Comparison.ofKind? c.kind with
        | none => expected .comparison c
        | some op =>
          (expression c.advance).bind fun right c =>
            (expect .leftBracket c).bind fun _ c =>
              (statementsUntil n .rightBracket c).map (.test t.pos left op right)
    | .stop => .ok (.stop t.pos) next
    | .output => (expression next).map (.output t.pos)
    | .home => .ok (.home t.pos) next
    | .setXY => (expression next).bind fun x c => (expression c).map (.setXY t.pos x)
    | .setHeading => (expression next).map (.setHeading t.pos)
    | .penUp => .ok (.pen t.pos false) next
    | .penDown => .ok (.pen t.pos true) next
    | .forward => (expression next).map (.move t.pos true)
    | .back => (expression next).map (.move t.pos false)
    | .left => (expression next).map (.turn t.pos true)
    | .right => (expression next).map (.turn t.pos false)
    | .identifier => (arguments next.fuel t.literal next).map (.call t.pos t.literal)
    | _ => unexpected c

def statementsUntil : Nat → TokenKind → Cursor → Parsed (List Stmt)
  | 0, _, c => unexpected c
  | n + 1, close, c =>
    if c.kind == close then .ok [] c.advance
    else if c.kind == .eof then expected (.kind close) c
    else (statement n c).bind fun s c => (statementsUntil n close c).map (s :: ·)

end

/-- Whether a token begins a statement unmistakably; an identifier may be an argument. -/
def startsStatement : TokenKind → Bool
  | .define | .make | .loop | .test | .stop | .output | .home | .setXY | .setHeading
  | .forward | .back | .left | .right | .penUp | .penDown => true
  | _ => false

/-- Passes over tokens until one begins a statement outside every block. -/
def skip (finish : Position) (arities : List (Name × Nat)) : List Opener → List Token → Cursor
  | opened, [] => ⟨[], finish, opened, arities⟩
  | opened, t :: rest =>
    if opened.isEmpty && startsStatement t.kind then ⟨t :: rest, finish, opened, arities⟩
    else skip finish arities (track t.kind opened) rest

def synchronize (c : Cursor) : Cursor := skip c.finish c.arities c.opened c.rest

def topLevel : Nat → Cursor → List Stmt × List ParseError
  | 0, _ => ([], [])
  | n + 1, c =>
    if c.rest.isEmpty then ([], [])
    else match statement c.fuel c with
      | .ok s next =>
        let (stmts, errors) := topLevel n next
        (s :: stmts, errors)
      | .fail error resume =>
        let (stmts, errors) := topLevel n (synchronize resume)
        (stmts, error :: errors)

end Parse

/-- The program of a source text, or every fault found in it. Grammar is looked at only when the
    whole text consists of tokens. -/
def parse (source : Bytes) : Except CompileError Program :=
  let lexed := tokenize source
  if lexed.errors.isEmpty then
    let (statements, errors) := Parse.topLevel (lexed.tokens.length + 1) (Cursor.ofLexed lexed)
    if errors.isEmpty then .ok ⟨statements, source⟩
    else .error ⟨source, errors.map .parse⟩
  else .error ⟨source, lexed.errors.map .lex⟩

end TurtleLogo
