import TurtleLogo.Evaluate
import TurtleLogo.Image
import TurtleLogo.Parse

/-!
Sessions keep variables, procedures, the turtle and the random stream alive from one
program to the next. A source text that does not compile leaves a session as it was; a
program that fails keeps what it drew and defined before.
-/
namespace TurtleLogo
open Text

inductive LimitError where
  | stepQuota (value : Int)
  | recursion (value : Int)
  deriving DecidableEq, Repr

def LimitError.message : LimitError → Bytes
  | stepQuota v =>
    utf8 "logo: step quota must not be negative (got " ++ signedDecimal v ++ utf8 ")"
  | recursion v =>
    utf8 "logo: recursion limit must not be negative (got " ++ signedDecimal v ++ utf8 ")"

def Limits.ofInts (stepQuota recursion : Int) : Except LimitError Limits :=
  if stepQuota < 0 then .error (.stepQuota stepQuota)
  else if recursion < 0 then .error (.recursion recursion)
  else .ok ⟨stepQuota.toNat, recursion.toNat⟩

def Limits.none : Limits := ⟨0, 0⟩

structure Session where
  env : Environment
  turtle : Turtle
  random : Random.Stream

inductive Failure where
  | compile (error : CompileError)
  | runtime (error : RuntimeError)
  | unfinished

def Failure.message : Failure → Bytes
  | compile e => e.message
  | runtime e => e.message
  | unfinished => utf8 "evaluation did not come to an end"

structure Ran where
  session : Session
  failure : Option Failure
  events : List Event

namespace Session

def start (random : Random.Stream) : Session := ⟨Environment.empty, Turtle.initial, random⟩

/-- Forgets definitions and clears the canvas; the random stream goes on. -/
def reset (s : Session) : Session := start s.random

def machine (s : Session) : Machine := ⟨s.env, s.turtle, s.random, 0, .empty, []⟩

def ofMachine (m : Machine) : Session := ⟨m.env, m.turtle, m.random⟩

def evaluate (fuel : Nat) (limits : Limits) (cancelledFrom : Option Nat) (s : Session)
    (p : Program) : Outcome Signal :=
  Evaluate.statements fuel ⟨limits, cancelledFrom, p.source⟩ p.statements s.machine

def ofOutcome (s : Session) : Outcome Signal → Ran
  | .done signal m =>
    let event := Event.finished m.steps m.turtle.trail.length (signal != .finished)
    ⟨ofMachine m, none, (event :: m.events).reverse⟩
  | .failed error m =>
    ⟨ofMachine m, some (.runtime error), (Event.failed m.steps error.message :: m.events).reverse⟩
  | .outOfFuel => ⟨s, some .unfinished, []⟩

def runWith (fuel : Nat) (limits : Limits) (cancelledFrom : Option Nat) (s : Session)
    (p : Program) : Ran :=
  s.ofOutcome (s.evaluate fuel limits cancelledFrom p)

def execWith (fuel : Nat) (limits : Limits) (cancelledFrom : Option Nat) (s : Session)
    (source : Bytes) : Ran :=
  match parse source with
  | .error e => ⟨s, some (.compile e), [.compileFailed e.faults.length]⟩
  | .ok p =>
    let ran := s.runWith fuel limits cancelledFrom p
    { ran with events := .compiled p.statements.length :: ran.events }

/-- More fuel than any run could use up. -/
def ampleFuel : Nat := Number.twoTo 62

/-- A run that is cancelled before it begins, or never. -/
def fromStart (cancelled : Bool) : Option Nat := if cancelled then some 0 else none

def run (limits : Limits) (cancelled : Bool) (s : Session) (p : Program) : Ran :=
  s.runWith ampleFuel limits (fromStart cancelled) p

def exec (limits : Limits) (cancelled : Bool) (s : Session) (source : Bytes) : Ran :=
  s.execWith ampleFuel limits (fromStart cancelled) source

end Session

def draw (limits : Limits) (cancelled : Bool) (random : Random.Stream) (source : Bytes) :
    Except Failure Image × List Event :=
  let ran := (Session.start random).exec limits cancelled source
  match ran.failure with
  | some failure => (.error failure, ran.events)
  | none => (.ok ran.session.turtle.image, ran.events)

end TurtleLogo
