import TurtleLogo.RuntimeError

/-!
Likely mistakes in a program that compiles: procedures defined twice, calls that cannot
succeed, statements that are never reached, and output outside a procedure. Any definition
may be in force by the time a call runs, so nested ones count as well.
-/
namespace TurtleLogo
open Text

structure Definition where
  name : Name
  params : List Name
  pos : Position
  namePos : Position
  deriving DecidableEq, Repr

mutual

def Stmt.definitions : Stmt → List Definition
  | .define pos name namePos params body => ⟨name, params, pos, namePos⟩ :: definitionsOf body
  | .loop _ _ body => definitionsOf body
  | .test _ _ _ _ body => definitionsOf body
  | _ => []

def definitionsOf : List Stmt → List Definition
  | [] => []
  | s :: rest => s.definitions ++ definitionsOf rest

end

def definition? (definitions : List Definition) (name : Name) : Option Definition :=
  definitions.find? (·.name == name)

inductive Complaint where
  | redefined (name : Name) (first : Position)
  | unreachable
  | outputOutside
  | undefined (name : Name)
  | arity (name : Name) (takes got : Nat)
  | repeatArity (name : Name) (takes : Nat)
  deriving DecidableEq, Repr

def Complaint.message : Complaint → Bytes
  | redefined name first =>
    utf8 "procedure " ++ name ++ utf8 " redefined (first defined at " ++ decimal first.line ++
      [byte ':'] ++ decimal first.column ++ utf8 ")"
  | unreachable => utf8 "unreachable statement"
  | outputOutside => utf8 "output outside a procedure"
  | undefined name => utf8 "call to undefined procedure " ++ name
  | arity name takes got => (Cause.arity name takes got).message
  | repeatArity name takes => (Cause.repeatArity name takes).message

structure Warning where
  procedure : Name
  pos : Position
  complaint : Complaint
  deriving DecidableEq, Repr

namespace Lint

def redefinitions (definitions : List Definition) : List Warning :=
  definitions.filterMap fun d =>
    match definition? definitions d.name with
    | some first => if first == d then none else some ⟨d.name, d.pos, .redefined d.name first.pos⟩
    | none => none

def callWarnings (definitions : List Definition) (procedure : Name) (pos : Position) (name : Name)
    (got : Nat) : List Warning :=
  match definition? definitions name with
  | none => [⟨procedure, pos, .undefined name⟩]
  | some d =>
    if d.params.length == got then [] else [⟨procedure, pos, .arity name d.params.length got⟩]

def loopCallWarnings (definitions : List Definition) (procedure : Name) (pos : Position)
    (name : Name) : List Warning :=
  match definition? definitions name with
  | none => [⟨procedure, pos, .undefined name⟩]
  | some d =>
    if d.params.isEmpty then [] else [⟨procedure, pos, .repeatArity name d.params.length⟩]

mutual

def expr (definitions : List Definition) (procedure : Name) : Expr → List Warning
  | .number .. | .param .. | .var .. => []
  | .negate _ e | .group _ e | .random _ e => expr definitions procedure e
  | .binary _ left right => expr definitions procedure left ++ expr definitions procedure right
  | .call pos name args =>
    callWarnings definitions procedure pos name args.length ++ exprs definitions procedure args

def exprs (definitions : List Definition) (procedure : Name) : List Expr → List Warning
  | [] => []
  | e :: rest => expr definitions procedure e ++ exprs definitions procedure rest

end

def terminates : Stmt → Bool
  | .stop _ | .output .. => true
  | _ => false

mutual

def statement (definitions : List Definition) (procedure : Name) : Stmt → List Warning
  | .define _ name _ _ body => statements definitions name body
  | .loop _ count body =>
    expr definitions procedure count ++ statements definitions procedure body
  | .loopCall pos count target =>
    expr definitions procedure count ++ loopCallWarnings definitions procedure pos target
  | .test _ left _ right body =>
    expr definitions procedure left ++ expr definitions procedure right ++
      statements definitions procedure body
  | .output pos value =>
    (if procedure == topLevelName then [⟨procedure, pos, .outputOutside⟩] else []) ++
      expr definitions procedure value
  | .call pos name args => expr definitions procedure (.call pos name args)
  | .make _ _ e | .move _ _ e | .turn _ _ e | .setHeading _ e => expr definitions procedure e
  | .setXY _ x y => expr definitions procedure x ++ expr definitions procedure y
  | .pen .. | .home _ | .stop _ => []

/-- What follows a terminating statement is reported and not looked into. -/
def statements (definitions : List Definition) (procedure : Name) : List Stmt → List Warning
  | [] => []
  | s :: rest =>
    statement definitions procedure s ++
      if terminates s then rest.map fun t => ⟨procedure, t.pos, .unreachable⟩
      else statements definitions procedure rest

end

def inOrder (a b : Warning) : Bool :=
  if a.pos.line != b.pos.line then a.pos.line < b.pos.line
  else if a.pos.column != b.pos.column then a.pos.column < b.pos.column
  else !before b.procedure a.procedure

end Lint

def Program.warnings (p : Program) : List Warning :=
  let definitions := definitionsOf p.statements
  let misuses := Lint.statements definitions topLevelName p.statements
  (Lint.redefinitions definitions ++ misuses).mergeSort Lint.inOrder

end TurtleLogo
