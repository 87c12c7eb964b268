import TurtleLogo.CallStack
import TurtleLogo.Fault
import TurtleLogo.Number.Decimal
import TurtleLogo.Program

/-!
Errors of a running program: their causes, the wording of each, and the chain of calls
that led to them.
-/
namespace TurtleLogo
open Text

inductive Operand where
  | distance | angle | x | y | heading
  deriving DecidableEq, Repr

inductive Cause where
  | stepQuota (limit : Nat)
  | cancelled
  | undefinedProcedure (name : Name) (suggestion : Option Name)
  | undefinedParameter (name : Name)
  | undefinedVariable (name : Name)
  | arity (name : Name) (takes got : Nat)
  | repeatArity (name : Name) (takes : Nat)
  | recursion (limit : Nat)
  | notFinite (operand : Operand) (value : Float)
  | noOutput (name : Name)
  deriving DecidableEq

inductive ErrorKind where
  | runtime | undefinedReference | arityMismatch | quota
  deriving DecidableEq, Repr

def ErrorKind.name : ErrorKind → String
  | runtime => "RuntimeError"
  | undefinedReference => "UndefinedReferenceError"
  | arityMismatch => "ArityMismatchError"
  | quota => "QuotaError"

def Cause.kind : Cause → ErrorKind
  | stepQuota _ => .quota
  | undefinedProcedure .. | undefinedParameter _ | undefinedVariable _ => .undefinedReference
  | arity .. | repeatArity .. => .arityMismatch
  | cancelled | recursion _ | notFinite .. | noOutput _ => .runtime

def Operand.text : Operand → Bytes
  | distance => utf8 "distance"
  | angle => utf8 "angle"
  | x => utf8 "x coordinate"
  | y => utf8 "y coordinate"
  | heading => utf8 "heading"

def Cause.message : Cause → Bytes
  | stepQuota limit => utf8 "step quota exceeded (" ++ decimal limit ++ utf8 ")"
  | cancelled => utf8 "context canceled"
  | undefinedProcedure name suggestion =>
    utf8 "undefined procedure " ++ name ++
      match suggestion with
      | some other => utf8 " (did you mean " ++ other ++ utf8 "?)"
      | none => []
  | undefinedParameter name => utf8 "undefined parameter :" ++ name
  | undefinedVariable name => utf8 "undefined variable \"" ++ name
  | arity name takes got =>
    name ++ utf8 " expects " ++ decimal takes ++ utf8 " inputs, got " ++ decimal got
  | repeatArity name takes =>
    utf8 "repeat cannot call " ++ name ++ utf8 ": it takes " ++ decimal takes ++ utf8 " inputs"
  | recursion limit => utf8 "recursion depth exceeded (limit " ++ decimal limit ++ utf8 ")"
  | notFinite operand value =>
    operand.text ++ utf8 " must be a finite number, got " ++ Number.text value
  | noOutput name => name ++ utf8 " did not output a value"

/-- The first frame is where the error arose; the others are the calls in progress, the
    innermost first. -/
structure RuntimeError where
  cause : Cause
  codeFrame : Bytes
  frames : List CallFrame
  deriving DecidableEq

def topLevelName : Name := utf8 "<program>"

def RuntimeError.at (cause : Cause) (source : Bytes) (pos : Position) (calls : List CallFrame) :
    RuntimeError where
  cause := cause
  codeFrame := TurtleLogo.codeFrame source pos 1
  frames := match calls with
    | [] => [⟨topLevelName, pos⟩]
    | current :: _ => ⟨current.procedure, pos⟩ :: calls

def CallFrame.text (f : CallFrame) : Bytes :=
  utf8 "\n  at " ++ f.procedure ++
    if 0 < f.pos.line && 0 < f.pos.column then
      utf8 " (" ++ decimal f.pos.line ++ [byte ':'] ++ decimal f.pos.column ++ utf8 ")"
    else []

/-- Of long chains only the first and last eight frames are shown. -/
def framesShown : Nat := 8

def framesText (frames : List CallFrame) : Bytes :=
  if frames.length ≤ 2 * framesShown then frames.flatMap CallFrame.text
  else
    (frames.take framesShown).flatMap CallFrame.text ++
      utf8 "\n  ... " ++ decimal (frames.length - 2 * framesShown) ++ utf8 " frames omitted ..." ++
      (frames.drop (frames.length - framesShown)).flatMap CallFrame.text

def RuntimeError.message (e : RuntimeError) : Bytes :=
  withFrame e.cause.message e.codeFrame ++ framesText e.frames

end TurtleLogo
