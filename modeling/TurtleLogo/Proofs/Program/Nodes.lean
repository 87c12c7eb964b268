import TurtleLogo.CallStack
import TurtleLogo.Environment
import TurtleLogo.Proofs.Program.Decisions

/-!
The nodes of a program and where they lie. A node lies directly in a list of statements if no
definition within the list has it in its body; so every node lies directly in the body of one
definition, or outside all of them.
-/
namespace TurtleLogo

inductive Node where
  | stmt (s : Stmt)
  | expr (e : Expr)
  deriving DecidableEq

namespace Node

def pos : Node → Position
  | stmt s => s.pos
  | expr e => e.pos

def target? : Node → Option Name
  | stmt (.call _ name _) | stmt (.loopCall _ _ name) | expr (.call _ name _) => some name
  | _ => none

def Calls (node : Node) (f : CallFrame) : Prop := node.pos = f.pos ∧ node.target? = some f.procedure

end Node

mutual

def Expr.inner : Expr → List Node
  | .number .. | .param .. | .var .. => []
  | .negate _ e | .group _ e | .random _ e => .expr e :: e.inner
  | .binary _ left right => .expr left :: (left.inner ++ .expr right :: right.inner)
  | .call _ _ args => argumentNodes args

def argumentNodes : List Expr → List Node
  | [] => []
  | e :: rest => .expr e :: (e.inner ++ argumentNodes rest)

end

def Expr.nodes (e : Expr) : List Node := .expr e :: e.inner

mutual

/-- The nodes within a statement, those in the body of a definition excepted. -/
def Stmt.inner : Stmt → List Node
  | .define .. => []
  | .loop _ count body => count.nodes ++ nodesOf body
  | .test _ left _ right body => left.nodes ++ (right.nodes ++ nodesOf body)
  | .call _ _ args => argumentNodes args
  | .make _ _ e | .loopCall _ e _ | .move _ _ e | .turn _ _ e | .setHeading _ e | .output _ e =>
    e.nodes
  | .setXY _ x y => x.nodes ++ y.nodes
  | .pen .. | .home _ | .stop _ => []

def nodesOf : List Stmt → List Node
  | [] => []
  | s :: rest => .stmt s :: (s.inner ++ nodesOf rest)

end

mutual

def Stmt.procedures : Stmt → List Procedure
  | .define pos name _ params body => ⟨name, params, body, pos⟩ :: proceduresOf body
  | .loop _ _ body => proceduresOf body
  | .test _ _ _ _ body => proceduresOf body
  | _ => []

def proceduresOf : List Stmt → List Procedure
  | [] => []
  | s :: rest => s.procedures ++ proceduresOf rest

end

def Program.procedures (p : Program) : List Procedure := proceduresOf p.statements

abbrev Region := Option Procedure

/-- What a run goes over: the nodes outside all procedures, and the procedures that it may call. -/
structure Ground where
  outside : List Node
  procedures : List Procedure

def Program.ground (p : Program) : Ground := ⟨nodesOf p.statements, p.procedures⟩

def Ground.nodesIn (g : Ground) : Region → List Node
  | none => g.outside
  | some q => nodesOf q.body

def Region.params : Region → List Name
  | none => []
  | some q => q.params

end TurtleLogo
