import TurtleLogo.Token

/-!
Parsed programs. Every node knows the place of the token that introduces it; a binary
expression stands where its left operand does.
-/
namespace TurtleLogo
open Text

abbrev Name := Bytes

inductive ArithOp where
  | plus | minus | times | dividedBy
  deriving DecidableEq, Repr

inductive Comparison where
  | equal | notEqual | greater | less
  deriving DecidableEq, Repr

inductive Expr where
  | number (pos : Position) (value : Float)
  | param (pos : Position) (name : Name)
  | var (pos : Position) (name : Name)
  | negate (pos : Position) (operand : Expr)
  | group (pos : Position) (inner : Expr)
  | random (pos : Position) (limit : Expr)
  | binary (op : ArithOp) (left right : Expr)
  | call (pos : Position) (name : Name) (args : List Expr)

inductive Stmt where
  | define (pos : Position) (name : Name) (namePos : Position) (params : List Name)
      (body : List Stmt)
  | make (pos : Position) (name : Name) (value : Expr)
  | loop (pos : Position) (count : Expr) (body : List Stmt)
  | loopCall (pos : Position) (count : Expr) (target : Name)
  | pen (pos : Position) (down : Bool)
  | move (pos : Position) (forward : Bool) (distance : Expr)
  | turn (pos : Position) (left : Bool) (angle : Expr)
  | home (pos : Position)
  | setXY (pos : Position) (x y : Expr)
  | setHeading (pos : Position) (angle : Expr)
  | call (pos : Position) (name : Name) (args : List Expr)
  | test (pos : Position) (left : Expr) (op : Comparison) (right : Expr) (body : List Stmt)
  | stop (pos : Position)
  | output (pos : Position) (value : Expr)

def ArithOp.kind : ArithOp → TokenKind
  | plus => .plus
  | minus => .minus
  | times => .asterisk
  | dividedBy => .slash

def ArithOp.ofKind? : TokenKind → Option ArithOp
  | .plus => some plus
  | .minus => some minus
  | .asterisk => some times
  | .slash => some dividedBy
  | _ => none

def Comparison.kind : Comparison → TokenKind
  | equal => .equal
  | notEqual => .notEqual
  | greater => .greater
  | less => .less

def Comparison.ofKind? : TokenKind → Option Comparison
  | .equal => some equal
  | .notEqual => some notEqual
  | .greater => some greater
  | .less => some less
  | _ => none

def Expr.pos : Expr → Position
  | number p _ | param p _ | var p _ | negate p _ | group p _ | random p _ | call p _ _ => p
  | binary _ left _ => left.pos

def Stmt.pos : Stmt → Position
  | define p .. | make p .. | loop p .. | loopCall p .. | pen p _ | move p .. | turn p .. | home p
  | setXY p .. | setHeading p _ | call p .. | test p .. | stop p | output p _ => p

structure Program where
  statements : List Stmt
  source : Bytes

/-- Where the first statement stands; an empty program stands at the start. -/
def Program.pos (p : Program) : Position :=
  match p.statements with
  | [] => Position.start
  | s :: _ => s.pos

def signature (name : Name) (params : List Name) : Bytes :=
  joined [space] (name :: params.map (byte ':' :: ·))

end TurtleLogo
