import TurtleLogo.Environment
import TurtleLogo.Random
import TurtleLogo.RuntimeError
import TurtleLogo.Similar
import TurtleLogo.Turtle

/-!
Programs run on a machine. Every statement, every expression and every round of a loop
is one step, and a step may fail because the quota is used up or the run was cancelled.
A stop or output statement ends the statements around it up to the nearest procedure
call or the top level.

A program need not come to an end, so evaluation takes fuel and says when it ran out:
a finished evaluation finishes with the same outcome under more fuel.
-/
namespace TurtleLogo
open Text

inductive Signal where
  | finished
  | stop
  | output (value : Float)
  deriving DecidableEq

inductive Event where
  | defined (name : Name) (params : Nat)
  | called (procedure : Name) (depth : Nat)
  | outputValue (procedure : Name) (value : Float)
  | stopped (procedure : Name)
  | compiled (statements : Nat)
  | compileFailed (faults : Nat)
  | finished (steps segments : Nat) (signalled : Bool)
  | failed (steps : Nat) (message : Bytes)
  deriving DecidableEq

/-- Everything a run changes. The events are kept latest first. -/
structure Machine where
  env : Environment
  turtle : Turtle
  random : Random.Stream
  steps : Nat
  calls : CallStack
  events : List Event

/-- Bounds of a run; zero stands for no bound. -/
structure Limits where
  stepQuota : Nat
  recursion : Nat
  deriving DecidableEq, Repr

/-- Everything a run leaves as it is. A run may be cancelled while it goes on: from one of its
    steps on it is then refused every step. -/
structure Context where
  limits : Limits
  cancelledFrom : Option Nat
  source : Bytes
  deriving DecidableEq, Repr

def Context.cancelledAt (ctx : Context) (step : Nat) : Bool :=
  match ctx.cancelledFrom with
  | some first => first ≤ step
  | none => false

inductive Outcome (α : Type) where
  | done (value : α) (m : Machine)
  | failed (error : RuntimeError) (m : Machine)
  | outOfFuel

namespace Outcome

@[inline] def bind {α β : Type} (o : Outcome α) (f : α → Machine → Outcome β) : Outcome β :=
  match o with
  | done value m => f value m
  | failed error m => failed error m
  | outOfFuel => outOfFuel

@[inline] def map {α β : Type} (f : α → β) (o : Outcome α) : Outcome β :=
  match o with
  | done value m => done (f value) m
  | failed error m => failed error m
  | outOfFuel => outOfFuel

@[inline] def onMachine {α : Type} (f : Machine → Machine) (o : Outcome α) : Outcome α :=
  match o with
  | done value m => done value (f m)
  | failed error m => failed error (f m)
  | outOfFuel => outOfFuel

end Outcome

namespace Machine

def report (m : Machine) (e : Event) : Machine := { m with events := e :: m.events }

def onTurtle (m : Machine) (f : Turtle → Turtle) : Machine := { m with turtle := f m.turtle }

def setVariable (m : Machine) (name : Name) (value : Float) : Machine :=
  { m with env := m.env.setVariable name value }

def define (m : Machine) (p : Procedure) : Machine :=
  { m with env := m.env.define p }.report (.defined p.name p.arity)

def enter (m : Machine) (procedure : Name) (params : Table Float) (pos : Position) : Machine :=
  { m with env := m.env.enter procedure params, calls := m.calls.push ⟨procedure, pos⟩ }

def leave (m : Machine) : Machine := { m with env := m.env.leave, calls := m.calls.pop }

def draw (m : Machine) (limit : Float) : Float × Machine :=
  let (fraction, random) := m.random.draw
  ((fraction * limit.floor).floor, { m with random := random })

end Machine

namespace Evaluate

def fail {α : Type} (ctx : Context) (cause : Cause) (pos : Position) (m : Machine) : Outcome α :=
  .failed (RuntimeError.at cause ctx.source pos m.calls.frames) m

def step (ctx : Context) (pos : Position) (m : Machine) : Outcome Unit :=
  let m := { m with steps := m.steps + 1 }
  if 0 < ctx.limits.stepQuota && ctx.limits.stepQuota < m.steps then
    fail ctx (.stepQuota ctx.limits.stepQuota) pos m
  else if ctx.cancelledAt m.steps then fail ctx .cancelled pos m
  else .done () m

def arithmetic : ArithOp → Float → Float → Float
  | .plus, a, b => a + b
  | .minus, a, b => a - b
  | .times, a, b => a * b
  | .dividedBy, a, b => a / b

def holds : Comparison → Float → Float → Bool
  | .equal, a, b => a == b
  | .notEqual, a, b => a != b
  | .greater, a, b => a > b
  | .less, a, b => a < b

def procedure (ctx : Context) (name : Name) (pos : Position) (m : Machine) : Outcome Procedure :=
  match m.env.procedure? name with
  | some p => .done p m
  | none =>
    fail ctx (.undefinedProcedure name (Similar.nearest? name m.env.procedureNames)) pos m

def finite (ctx : Context) (operand : Operand) (pos : Position) (value : Float) (m : Machine) :
    Outcome Float :=
  if Number.isFinite value then .done value m else fail ctx (.notFinite operand value) pos m

/-- Of parameters with the same name the last one counts. -/
def bindParams (params : List Name) (values : List Float) : Table Float :=
  (params.zip values).foldl (fun t (name, value) => t.set name value) []

mutual

def statements : Nat → Context → List Stmt → Machine → Outcome Signal
  | 0, _, _, _ => .outOfFuel
  | _ + 1, _, [], m => .done .finished m
  | n + 1, ctx, s :: rest, m =>
    (step ctx s.pos m).bind fun _ m =>
      (statement n ctx s m).bind fun signal m =>
        match signal with
        | .finished => statements n ctx rest m
        | _ => .done signal m

def statement : Nat → Context → Stmt → Machine → Outcome Signal
  | 0, _, _, _ => .outOfFuel
  | n + 1, ctx, s, m =>
    match s with
    | .define pos name _ params body => .done .finished (m.define ⟨name, params, body, pos⟩)
    | .make _ name value =>
      (expr n ctx value m).bind fun v m => .done .finished (m.setVariable name v)
    | .loop pos count body =>
      (expr n ctx count m).bind fun total m => rounds n ctx pos body total 0 m
    | .loopCall pos count target =>
      (expr n ctx count m).bind fun total m =>
        (procedure ctx target pos m).bind fun p m =>
          if p.arity == 0 then callRounds n ctx pos p total 0 m
          else fail ctx (.repeatArity p.name p.arity) pos m
    | .pen _ down => .done .finished (m.onTurtle (·.setPen down))
    | .move _ forward distance =>
      (operand n ctx .distance distance m).bind fun d m =>
        .done .finished (m.onTurtle (·.move forward d))
    | .turn _ left angle =>
      (operand n ctx .angle angle m).bind fun a m =>
        .done .finished (m.onTurtle (·.turn left a))
    | .home _ => .done .finished (m.onTurtle Turtle.home)
    | .setXY _ x y =>
      (operand n ctx .x x m).bind fun x m =>
        (operand n ctx .y y m).bind fun y m => .done .finished (m.onTurtle (·.setXY x y))
    | .setHeading _ angle =>
      (operand n ctx .heading angle m).bind fun a m =>
        .done .finished (m.onTurtle (·.setHeading a))
    | .call pos name args => (call n ctx pos name args m).bind fun _ m => .done .finished m
    | .test _ left op right body =>
      (expr n ctx left m).bind fun l m =>
        (expr n ctx right m).bind fun r m =>
          if holds op l r then statements n ctx body m else .done .finished m
    | .stop _ => .done .stop m
    | .output _ value => (expr n ctx value m).bind fun v m => .done (.output v) m

def rounds : Nat → Context → Position → List Stmt → Float → Nat → Machine → Outcome Signal
  | 0, _, _, _, _, _, _ => .outOfFuel
  | n + 1, ctx, pos, body, total, i, m =>
    if Float.ofNat i < total then
      (step ctx pos m).bind fun _ m =>
        (statements n ctx body m).bind fun signal m =>
          match signal with
          | .finished => rounds n ctx pos body total (i + 1) m
          | _ => .done signal m
    else .done .finished m

/-- The rounds of a loop that calls a procedure, which absorbs the signals of its body. -/
def callRounds : Nat → Context → Position → Procedure → Float → Nat → Machine → Outcome Signal
  | 0, _, _, _, _, _, _ => .outOfFuel
  | n + 1, ctx, pos, p, total, i, m =>
    if Float.ofNat i < total then
      (step ctx pos m).bind fun _ m =>
        (invoke n ctx p [] pos m).bind fun _ m => callRounds n ctx pos p total (i + 1) m
    else .done .finished m

def operand : Nat → Context → Operand → Expr → Machine → Outcome Float
  | 0, _, _, _, _ => .outOfFuel
  | n + 1, ctx, what, e, m => (expr n ctx e m).bind fun v m => finite ctx what e.pos v m

def expr : Nat → Context → Expr → Machine → Outcome Float
  | 0, _, _, _ => .outOfFuel
  | n + 1, ctx, e, m =>
    (step ctx e.pos m).bind fun _ m =>
      match e with
      | .number _ value => .done value m
      | .param pos name =>
        match m.env.param? name with
        | some value => .done value m
        | none => fail ctx (.undefinedParameter name) pos m
      | .var pos name =>
        match m.env.global? name with
        | some value => .done value m
        | none => fail ctx (.undefinedVariable name) pos m
      | .group _ inner => expr n ctx inner m
      | .negate _ inner => (expr n ctx inner m).map (- ·)
      | .random _ limit =>
        (expr n ctx limit m).bind fun l m =>
          let (value, m) := m.draw l
          .done value m
      | .binary op left right =>
        (expr n ctx left m).bind fun l m =>
          (expr n ctx right m).map fun r => arithmetic op l r
      | .call pos name args =>
        (call n ctx pos name args m).bind fun result m =>
          match result with
          | some value => .done value m
          | none => fail ctx (.noOutput name) pos m

def arguments : Nat → Context → List Expr → Machine → Outcome (List Float)
  | 0, _, _, _ => .outOfFuel
  | _ + 1, _, [], m => .done [] m
  | n + 1, ctx, e :: rest, m =>
    (expr n ctx e m).bind fun v m => (arguments n ctx rest m).map (v :: ·)

/-- Arguments are evaluated in the caller's frame; the result is the output, if there was one. -/
def call : Nat → Context → Position → Name → List Expr → Machine → Outcome (Option Float)
  | 0, _, _, _, _, _ => .outOfFuel
  | n + 1, ctx, pos, name, args, m =>
    (procedure ctx name pos m).bind fun p m =>
      if args.length == p.arity then
        (arguments n ctx args m).bind fun values m =>
          invoke n ctx p (bindParams p.params values) pos m
      else fail ctx (.arity p.name p.arity args.length) pos m

/-- Runs the body of a procedure in a frame of its own, which is left however the body ends. -/
def invoke : Nat → Context → Procedure → Table Float → Position → Machine → Outcome (Option Float)
  | 0, _, _, _, _, _ => .outOfFuel
  | n + 1, ctx, p, params, pos, m =>
    if 0 < ctx.limits.recursion && ctx.limits.recursion ≤ m.calls.depth then
      fail ctx (.recursion ctx.limits.recursion) pos m
    else
      let entered := m.enter p.name params pos
      let result := statements n ctx p.body (entered.report (.called p.name entered.calls.depth))
      (result.onMachine Machine.leave).bind fun signal m =>
        match signal with
        | .finished => .done none m
        | .stop => .done none (m.report (.stopped p.name))
        | .output value => .done (some value) (m.report (.outputValue p.name value))

end

end Evaluate
end TurtleLogo
