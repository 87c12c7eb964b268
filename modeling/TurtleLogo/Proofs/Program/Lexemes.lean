import TurtleLogo.Number.Decimal
import TurtleLogo.Program

/-!
Programs written out as lexemes: every node gives its own tokens, in the order in which they
stand in a source text. A program keeps the name or the value of a token and the place of a
token that introduces a node; the spelling of reserved words and the places of closing
brackets, operators and parameters are not kept.
-/
namespace TurtleLogo
open Text

/-- What a program keeps of a token's text. -/
inductive Spelling where
  | word
  | text (literal : Bytes)
  | sigiled (name : Name)
  | value (number : Float)

structure Lexeme where
  kind : TokenKind
  spelling : Spelling
  pos : Option Position

def Spelling.Admits : Spelling → Bytes → Prop
  | word, _ => True
  | text literal, t => t = literal
  | sigiled name, t => t.drop 1 = name
  | value number, t => Number.ofLiteral? t = some number

def Lexeme.Spells (x : Lexeme) (t : Token) : Prop := t.kind = x.kind ∧ x.spelling.Admits t.literal

/-- The place agrees as well, where the program has one. -/
def Lexeme.Fits (x : Lexeme) (t : Token) : Prop := x.Spells t ∧ ∀ p, x.pos = some p → t.pos = p

namespace Lexeme

def opening (k : TokenKind) (pos : Position) : Lexeme := ⟨k, .word, some pos⟩

def inner (k : TokenKind) : Lexeme := ⟨k, .word, none⟩

end Lexeme

mutual

def Expr.lexemes : Expr → List Lexeme
  | .number pos value => [⟨.number, .value value, some pos⟩]
  | .param pos name => [⟨.paramName, .sigiled name, some pos⟩]
  | .var pos name => [⟨.varName, .sigiled name, some pos⟩]
  | .negate pos operand => .opening .minus pos :: operand.lexemes
  | .group pos inside => .opening .leftParen pos :: (inside.lexemes ++ [.inner .rightParen])
  | .random pos limit => .opening .random pos :: limit.lexemes
  | .binary op left right => left.lexemes ++ .inner op.kind :: right.lexemes
  | .call pos name args => ⟨.identifier, .text name, some pos⟩ :: lexemesOfArgs args

def lexemesOfArgs : List Expr → List Lexeme
  | [] => []
  | e :: rest => e.lexemes ++ lexemesOfArgs rest

end

def penKind (down : Bool) : TokenKind := if down then .penDown else .penUp

def moveKind (forward : Bool) : TokenKind := if forward then .forward else .back

def turnKind (left : Bool) : TokenKind := if left then .left else .right

mutual

def Stmt.lexemes : Stmt → List Lexeme
  | .define pos name namePos params body =>
    .opening .define pos :: ⟨.identifier, .text name, some namePos⟩ ::
      (params.map (⟨.paramName, .sigiled ·, none⟩) ++ (lexemesOf body ++ [.inner .endDefine]))
  | .make pos name value => .opening .make pos :: ⟨.varName, .sigiled name, none⟩ :: value.lexemes
  | .loop pos count body =>
    .opening .loop pos ::
      (count.lexemes ++ .inner .leftBracket :: (lexemesOf body ++ [.inner .rightBracket]))
  | .loopCall pos count target =>
    .opening .loop pos :: (count.lexemes ++ [⟨.identifier, .text target, none⟩])
  | .pen pos down => [.opening (penKind down) pos]
  | .move pos forward distance => .opening (moveKind forward) pos :: distance.lexemes
  | .turn pos left angle => .opening (turnKind left) pos :: angle.lexemes
  | .home pos => [.opening .home pos]
  | .setXY pos x y => .opening .setXY pos :: (x.lexemes ++ y.lexemes)
  | .setHeading pos angle => .opening .setHeading pos :: angle.lexemes
  | .call pos name args => ⟨.identifier, .text name, some pos⟩ :: lexemesOfArgs args
  | .test pos left op right body =>
    .opening .test pos ::
      (left.lexemes ++ .inner op.kind ::
        (right.lexemes ++ .inner .leftBracket :: (lexemesOf body ++ [.inner .rightBracket])))
  | .stop pos => [.opening .stop pos]
  | .output pos value => .opening .output pos :: value.lexemes

def lexemesOf : List Stmt → List Lexeme
  | [] => []
  | s :: rest => s.lexemes ++ lexemesOf rest

end

def placed (xs : List Lexeme) : List Position := xs.filterMap Lexeme.pos

theorem placed_append (xs ys : List Lexeme) : placed (xs ++ ys) = placed xs ++ placed ys :=
  List.filterMap_append

theorem placed_opening (k : TokenKind) (pos : Position) (xs : List Lexeme) :
    placed (.opening k pos :: xs) = pos :: placed xs :=
  rfl

theorem placed_inner (k : TokenKind) (xs : List Lexeme) : placed (.inner k :: xs) = placed xs := rfl

theorem expr_starts_at_pos : ∀ e : Expr, ∃ x rest, e.lexemes = x :: rest ∧ x.pos = some e.pos
  | .number .. | .param .. | .var .. | .negate .. | .group .. | .random .. | .call .. =>
    ⟨_, _, by rw [Expr.lexemes], rfl⟩
  | .binary op left right => by
    obtain ⟨x, rest, lexemes, pos⟩ := expr_starts_at_pos left
    exact ⟨x, rest ++ .inner op.kind :: right.lexemes, by simp [Expr.lexemes, lexemes], pos⟩

theorem stmt_starts_at_pos (s : Stmt) : ∃ x rest, s.lexemes = x :: rest ∧ x.pos = some s.pos := by
  cases s <;> exact ⟨_, _, by rw [Stmt.lexemes], rfl⟩

end TurtleLogo
