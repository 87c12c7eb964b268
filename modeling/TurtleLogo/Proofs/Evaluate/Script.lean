import TurtleLogo.Evaluate

/-!
Evaluation as scripts. The evaluators call one another with one unit of fuel less; a task names
one of them with its arguments, and the script of a task says what it does with a unit of fuel:
which steps it takes, what it changes, which tasks it performs and in which frame. `run_succ`
says that this is what the evaluators do, so a property of scripts, proved with one case for each
thing a script can do, is a property of every evaluator.
-/
namespace TurtleLogo
open Text

namespace Outcome

def machine? {α : Type} : Outcome α → Option Machine
  | done _ m | failed _ m => some m
  | outOfFuel => none

theorem machine_of_proper {α : Type} {o : Outcome α} (proper : o ≠ .outOfFuel) :
    ∃ m, o.machine? = some m := by
  cases o with
  | done v m => exact ⟨m, rfl⟩
  | failed e m => exact ⟨m, rfl⟩
  | outOfFuel => exact absurd rfl proper

theorem bind_done {α : Type} (o : Outcome α) : o.bind .done = o := by cases o <;> rfl

theorem bind_assoc {α β γ : Type} (o : Outcome α) (f : α → Machine → Outcome β)
    (g : β → Machine → Outcome γ) : (o.bind f).bind g = o.bind fun v m => (f v m).bind g := by
  cases o <;> rfl

theorem bind_congr {α β : Type} {o : Outcome α} {f g : α → Machine → Outcome β}
    (same : ∀ v m, f v m = g v m) : o.bind f = o.bind g := by
  cases o with
  | done v m => exact same v m
  | failed e m => rfl
  | outOfFuel => rfl

theorem map_eq_bind {α β : Type} (f : α → β) (o : Outcome α) :
    o.map f = o.bind fun v m => .done (f v) m := by
  cases o <;> rfl

theorem machine_bind {α β : Type} {o : Outcome α} {f : α → Machine → Outcome β} {m : Machine}
    (ends : (o.bind f).machine? = some m) :
    (∃ v mid, o = .done v mid ∧ (f v mid).machine? = some m) ∨ ∃ e, o = .failed e m := by
  cases o with
  | done v mid => exact .inl ⟨v, mid, rfl, ends⟩
  | failed e mid =>
    obtain rfl := Option.some.inj ends
    exact .inr ⟨e, rfl⟩
  | outOfFuel => simp [bind, machine?] at ends

theorem machine_onMachine {α : Type} (f : Machine → Machine) (o : Outcome α) :
    (o.onMachine f).machine? = o.machine?.map f := by
  cases o <;> rfl

end Outcome

theorem Evaluate.machine_fail {α : Type} (ctx : Context) (cause : Cause) (pos : Position)
    (m : Machine) : (fail (α := α) ctx cause pos m).machine? = some m :=
  rfl

theorem Evaluate.bind_fail {α β : Type} (ctx : Context) (cause : Cause) (pos : Position)
    (m : Machine) (f : α → Machine → Outcome β) :
    (fail ctx cause pos m).bind f = fail ctx cause pos m :=
  rfl

def Machine.tick (m : Machine) : Machine := { m with steps := m.steps + 1 }

theorem Evaluate.step_eq (ctx : Context) (pos : Position) (m : Machine) :
    step ctx pos m =
      if 0 < ctx.limits.stepQuota && ctx.limits.stepQuota < m.tick.steps then
        fail ctx (.stepQuota ctx.limits.stepQuota) pos m.tick
      else if ctx.cancelledAt m.tick.steps then fail ctx .cancelled pos m.tick
      else .done () m.tick :=
  rfl

theorem Evaluate.step_cases (ctx : Context) (pos : Position) (m : Machine) :
    step ctx pos m = .done () m.tick ∨ ∃ cause, step ctx pos m = fail ctx cause pos m.tick := by
  rw [step_eq]
  split
  · exact .inr ⟨_, rfl⟩
  · split
    · exact .inr ⟨_, rfl⟩
    · exact .inl rfl

inductive Task where
  | statements (ss : List Stmt)
  | statement (s : Stmt)
  | rounds (pos : Position) (body : List Stmt) (total : Float) (i : Nat)
  | callRounds (pos : Position) (p : Procedure) (total : Float) (i : Nat)
  | operand (what : Operand) (e : Expr)
  | expr (e : Expr)
  | arguments (es : List Expr)
  | call (pos : Position) (name : Name) (args : List Expr)
  | invoke (p : Procedure) (params : Table Float) (pos : Position)

namespace Task

abbrev Result : Task → Type
  | statements _ | statement _ | rounds .. | callRounds .. => Signal
  | operand .. | expr _ => Float
  | arguments _ => List Float
  | call .. | invoke .. => Option Float

def run (n : Nat) (ctx : Context) : (t : Task) → Machine → Outcome t.Result
  | statements ss => Evaluate.statements n ctx ss
  | statement s => Evaluate.statement n ctx s
  | rounds pos body total i => Evaluate.rounds n ctx pos body total i
  | callRounds pos p total i => Evaluate.callRounds n ctx pos p total i
  | operand what e => Evaluate.operand n ctx what e
  | expr e => Evaluate.expr n ctx e
  | arguments es => Evaluate.arguments n ctx es
  | call pos name args => Evaluate.call n ctx pos name args
  | invoke p params pos => Evaluate.invoke n ctx p params pos

end Task

/-- What a script does to a machine besides taking steps, drawing numbers and entering frames. -/
inductive Change where
  | define (p : Procedure)
  | setVariable (name : Name) (value : Float)
  | setPen (down : Bool)
  | move (forward : Bool) (distance : Float)
  | turn (left : Bool) (degrees : Float)
  | home
  | setXY (x y : Float)
  | setHeading (degrees : Float)
  | report (e : Event)

def Change.apply (m : Machine) : Change → Machine
  | define p => m.define p
  | setVariable name value => m.setVariable name value
  | setPen down => m.onTurtle (·.setPen down)
  | move forward distance => m.onTurtle (·.move forward distance)
  | turn left degrees => m.onTurtle (·.turn left degrees)
  | home => m.onTurtle Turtle.home
  | setXY x y => m.onTurtle (·.setXY x y)
  | setHeading degrees => m.onTurtle (·.setHeading degrees)
  | report e => m.report e

def Machine.called (m : Machine) (p : Procedure) (params : Table Float) (pos : Position) :
    Machine :=
  (m.enter p.name params pos).report (.called p.name (m.enter p.name params pos).calls.depth)

def Machine.drawn (m : Machine) (limit : Float) : Outcome Float :=
  let (value, m) := m.draw limit
  .done value m

theorem Machine.drawn_eq (m : Machine) (limit : Float) :
    ∃ value random, m.drawn limit = .done value { m with random := random } := by
  unfold drawn draw
  generalize m.random.draw = pair
  exact ⟨_, pair.2, rfl⟩

def Context.refuses (ctx : Context) (m : Machine) : Bool :=
  0 < ctx.limits.recursion && ctx.limits.recursion ≤ m.calls.depth

inductive Script (α : Type) where
  | done (value : α)
  | fail (cause : Cause) (pos : Position)
  | step (pos : Position) (next : Script α)
  | inspect (next : Environment → Script α)
  | change (c : Change) (next : Script α)
  | draw (limit : Float) (next : Float → Script α)
  | perform (t : Task) (next : t.Result → Script α)
  | enter (p : Procedure) (params : Table Float) (pos : Position) (next : Signal → Script α)

namespace Script

def exec {α : Type} (ctx : Context) (run : (t : Task) → Machine → Outcome t.Result) :
    Script α → Machine → Outcome α
  | done value => .done value
  | fail cause pos => Evaluate.fail ctx cause pos
  | step pos next => fun m => (Evaluate.step ctx pos m).bind fun _ m => next.exec ctx run m
  | inspect next => fun m => (next m.env).exec ctx run m
  | change c next => fun m => next.exec ctx run (c.apply m)
  | draw limit next => fun m => (m.drawn limit).bind fun v m => (next v).exec ctx run m
  | perform t next => fun m => (run t m).bind fun v m => (next v).exec ctx run m
  | enter p params pos next => fun m =>
    if ctx.refuses m then Evaluate.fail ctx (.recursion ctx.limits.recursion) pos m
    else
      ((run (.statements p.body) (m.called p params pos)).onMachine Machine.leave).bind
        fun signal m => (next signal).exec ctx run m

def lookup {α : Type} (name : Name) (pos : Position) (next : Procedure → Script α) : Script α :=
  inspect fun env =>
    match env.procedure? name with
    | some p => next p
    | none => fail (.undefinedProcedure name (Similar.nearest? name env.procedureNames)) pos

def found {α : Type} (value : Option α) (missing : Cause) (pos : Position) : Script α :=
  match value with
  | some v => done v
  | none => fail missing pos

def finish (t : Task) : Script t.Result := perform t done

end Script

def Stmt.script : Stmt → Script Signal
  | .define pos name _ params body =>
    .change (.define ⟨name, params, body, pos⟩) (.done .finished)
  | .make _ name value =>
    .perform (.expr value) fun v => .change (.setVariable name v) (.done .finished)
  | .loop pos count body => .perform (.expr count) fun total => .finish (.rounds pos body total 0)
  | .loopCall pos count target =>
    .perform (.expr count) fun total =>
      .lookup target pos fun p =>
        if p.arity == 0 then .finish (.callRounds pos p total 0)
        else .fail (.repeatArity p.name p.arity) pos
  | .pen _ down => .change (.setPen down) (.done .finished)
  | .move _ forward distance =>
    .perform (.operand .distance distance) fun d => .change (.move forward d) (.done .finished)
  | .turn _ left angle =>
    .perform (.operand .angle angle) fun a => .change (.turn left a) (.done .finished)
  | .home _ => .change .home (.done .finished)
  | .setXY _ x y =>
    .perform (.operand .x x) fun x =>
      .perform (.operand .y y) fun y => .change (.setXY x y) (.done .finished)
  | .setHeading _ angle =>
    .perform (.operand .heading angle) fun a => .change (.setHeading a) (.done .finished)
  | .call pos name args => .perform (.call pos name args) fun _ => .done .finished
  | .test _ left op right body =>
    .perform (.expr left) fun l =>
      .perform (.expr right) fun r =>
        if Evaluate.holds op l r then .finish (.statements body) else .done .finished
  | .stop _ => .done .stop
  | .output _ value => .perform (.expr value) fun v => .done (.output v)

def Expr.script : Expr → Script Float
  | .number _ value => .done value
  | .param pos name => .inspect fun env => .found (env.param? name) (.undefinedParameter name) pos
  | .var pos name => .inspect fun env => .found (env.global? name) (.undefinedVariable name) pos
  | .group _ inner => .finish (.expr inner)
  | .negate _ inner => .perform (.expr inner) fun (v : Float) => .done (-v)
  | .random _ limit => .perform (.expr limit) fun l => .draw l .done
  | .binary op left right =>
    .perform (.expr left) fun l =>
      .perform (.expr right) fun r => .done (Evaluate.arithmetic op l r)
  | .call pos name args =>
    .perform (.call pos name args) fun result => .found result (.noOutput name) pos

def Signal.andThen (signal : Signal) (next : Script Signal) : Script Signal :=
  match signal with
  | .finished => next
  | _ => .done signal

def Signal.returned (procedure : Name) : Signal → Script (Option Float)
  | .finished => .done none
  | .stop => .change (.report (.stopped procedure)) (.done none)
  | .output value => .change (.report (.outputValue procedure value)) (.done (some value))

def Task.script : (t : Task) → Script t.Result
  | .statements [] => .done Signal.finished
  | .statements (s :: rest) =>
    .step s.pos (.perform (.statement s) fun signal => signal.andThen (.finish (.statements rest)))
  | .statement s => s.script
  | .rounds pos body total i =>
    if Float.ofNat i < total then
      .step pos (.perform (.statements body) fun signal =>
        signal.andThen (.finish (.rounds pos body total (i + 1))))
    else .done Signal.finished
  | .callRounds pos p total i =>
    if Float.ofNat i < total then
      .step pos (.perform (.invoke p [] pos) fun _ => .finish (.callRounds pos p total (i + 1)))
    else .done Signal.finished
  | .operand what e =>
    .perform (.expr e) fun v =>
      if Number.isFinite v then .done v else .fail (.notFinite what v) e.pos
  | .expr e => .step e.pos e.script
  | .arguments [] => .done ([] : List Float)
  | .arguments (e :: rest) =>
    .perform (.expr e) fun v => .perform (.arguments rest) fun vs => .done (List.cons v vs)
  | .call pos name args =>
    .lookup name pos fun p =>
      if args.length == p.arity then
        .perform (.arguments args) fun values =>
          .finish (.invoke p (Evaluate.bindParams p.params values) pos)
      else .fail (.arity p.name p.arity args.length) pos
  | .invoke p params pos => .enter p params pos fun signal => signal.returned p.name

namespace Script
variable {α : Type} {ctx : Context} {run : (t : Task) → Machine → Outcome t.Result}

theorem exec_lookup (name : Name) (pos : Position) (next : Procedure → Script α) (m : Machine) :
    (lookup name pos next).exec ctx run m =
      (Evaluate.procedure ctx name pos m).bind fun p m => (next p).exec ctx run m := by
  simp only [lookup, exec, Evaluate.procedure]
  cases m.env.procedure? name <;> rfl

theorem exec_ite {condition : Prop} [Decidable condition] (yes no : Script α) (m : Machine) :
    (if condition then yes else no).exec ctx run m =
      if condition then yes.exec ctx run m else no.exec ctx run m := by
  split <;> rfl

end Script

theorem Task.run_zero (ctx : Context) (t : Task) (m : Machine) : t.run 0 ctx m = .outOfFuel := by
  cases t <;> simp only [run, Evaluate.statements, Evaluate.statement, Evaluate.rounds,
    Evaluate.callRounds, Evaluate.operand, Evaluate.expr, Evaluate.arguments, Evaluate.call,
    Evaluate.invoke]

open Script in
theorem Task.run_succ (n : Nat) (ctx : Context) (t : Task) (m : Machine) :
    t.run (n + 1) ctx m = t.script.exec ctx (fun t => t.run n ctx) m := by
  cases t with
  | statements ss =>
    cases ss with
    | nil => simp only [run, Evaluate.statements, script, exec]
    | cons s rest =>
      simp only [run, Evaluate.statements, script, exec]
      refine Outcome.bind_congr fun _ m => Outcome.bind_congr fun signal m => ?_
      cases signal <;> simp only [Signal.andThen, exec, finish, Outcome.bind_done]
  | statement s =>
    cases s <;>
      simp only [run, Evaluate.statement, script, Stmt.script, exec, finish, Outcome.bind_done,
        exec_lookup, exec_ite, Change.apply]
  | rounds pos body total i =>
    simp only [run, Evaluate.rounds, script, exec_ite, exec]
    split
    · refine Outcome.bind_congr fun _ m => Outcome.bind_congr fun signal m => ?_
      cases signal <;> simp only [Signal.andThen, exec, finish, Outcome.bind_done]
    · rfl
  | callRounds pos p total i =>
    simp only [run, Evaluate.callRounds, script, exec_ite, exec, finish, Outcome.bind_done]
  | operand what e =>
    simp only [run, Evaluate.operand, Evaluate.finite, script, exec_ite, exec]
  | expr e =>
    simp only [run, Evaluate.expr, script, exec]
    refine Outcome.bind_congr fun _ m => ?_
    cases e <;>
      simp only [Expr.script, exec, finish, Outcome.bind_done, Outcome.map_eq_bind, Machine.drawn]
    case param pos name => cases m.env.param? name <;> simp only [found, exec]
    case var pos name => cases m.env.global? name <;> simp only [found, exec]
    case call pos name args =>
      refine Outcome.bind_congr fun result m => ?_
      cases result <;> simp only [found, exec]
  | arguments es =>
    cases es with
    | nil => simp only [run, Evaluate.arguments, script, exec]
    | cons e rest => simp only [run, Evaluate.arguments, script, exec, Outcome.map_eq_bind]
  | call pos name args =>
    simp only [run, Evaluate.call, script, exec, exec_lookup, exec_ite, finish, Outcome.bind_done]
  | invoke p params pos =>
    have limit : (0 < ctx.limits.recursion && ctx.limits.recursion ≤ m.calls.depth) =
        ctx.refuses m := rfl
    simp only [run, Evaluate.invoke, script, exec, limit]
    cases ctx.refuses m with
    | true => rfl
    | false =>
      refine Outcome.bind_congr fun signal m => ?_
      cases signal <;> simp only [Signal.returned, exec, Change.apply]

end TurtleLogo
