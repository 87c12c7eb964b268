import TurtleLogo.Lint
import TurtleLogo.Proofs.Evaluate.Script
import TurtleLogo.Proofs.Program.Moved

/-!
Programs that run alike. A counterpart moves the nodes of a program to other places, gives every
list of statements another in its stead, which may end behind a statement that terminates it, and
counts steps and events from elsewhere. Evaluating the counterpart of a program on the counterpart
of a machine gives the counterpart of the outcome, with the same fuel.
-/
namespace TurtleLogo
open Text

def Context.refusal (ctx : Context) (steps : Nat) : Option Cause :=
  if 0 < ctx.limits.stepQuota && ctx.limits.stepQuota < steps then
    some (.stepQuota ctx.limits.stepQuota)
  else if ctx.cancelledAt steps then some .cancelled
  else none

theorem Evaluate.step_eq_refusal (ctx : Context) (pos : Position) (m : Machine) :
    step ctx pos m =
      match ctx.refusal m.tick.steps with
      | some cause => fail ctx cause pos m.tick
      | none => .done () m.tick := by
  rw [step_eq, Context.refusal]
  split
  · rfl
  · split <;> rfl

theorem Evaluate.statement_terminates {n : Nat} {ctx : Context} {s : Stmt} {m after : Machine}
    {signal : Signal} (terminates : Lint.terminates s = true)
    (ends : statement n ctx s m = .done signal after) : signal ≠ .finished := by
  cases n with
  | zero => simp [statement] at ends
  | succ n =>
    cases s with
    | stop pos =>
      simp only [statement, Outcome.done.injEq] at ends
      simp [← ends.1]
    | output pos value =>
      simp only [statement] at ends
      cases result : expr n ctx value m with
      | done v mid =>
        simp only [result, Outcome.bind, Outcome.done.injEq] at ends
        simp [← ends.1]
      | failed e mid => simp [result, Outcome.bind] at ends
      | outOfFuel => simp [result, Outcome.bind] at ends
    | _ => simp [Lint.terminates] at terminates

theorem Table.map_set {α β : Type} (t : Table α) (f : α → β) (name : Name) (value : α) :
    (t.set name value).map (fun entry => (entry.1, f entry.2)) =
      Table.set (t.map fun entry => (entry.1, f entry.2)) name (f value) := by
  induction t with
  | nil => rfl
  | cons entry rest ih =>
    rw [List.map_cons, set, set]
    split
    · rfl
    · rw [List.map_cons, ih]

theorem Table.map_get {α β : Type} (t : Table α) (f : α → β) (name : Name) :
    Table.get? (t.map fun entry => (entry.1, f entry.2)) name = (t.get? name).map f := by
  induction t with
  | nil => rfl
  | cons entry rest ih =>
    obtain ⟨key, value⟩ := entry
    simp only [get?, List.map_cons, List.lookup_cons] at ih ⊢
    split
    · rfl
    · exact ih

structure Counterpart where
  place : Position → Position
  body : List Stmt → List Stmt
  error : RuntimeError → RuntimeError
  taken : Nat
  earlier : List Event

namespace Counterpart
variable (φ : Counterpart)

def stmt : Stmt → Stmt
  | .define pos name namePos params body =>
    .define (φ.place pos) name (φ.place namePos) params (φ.body body)
  | .make pos name value => .make (φ.place pos) name (value.moved φ.place)
  | .loop pos count body => .loop (φ.place pos) (count.moved φ.place) (φ.body body)
  | .loopCall pos count target => .loopCall (φ.place pos) (count.moved φ.place) target
  | .pen pos down => .pen (φ.place pos) down
  | .move pos forward distance => .move (φ.place pos) forward (distance.moved φ.place)
  | .turn pos left angle => .turn (φ.place pos) left (angle.moved φ.place)
  | .home pos => .home (φ.place pos)
  | .setXY pos x y => .setXY (φ.place pos) (x.moved φ.place) (y.moved φ.place)
  | .setHeading pos angle => .setHeading (φ.place pos) (angle.moved φ.place)
  | .call pos name args => .call (φ.place pos) name (movedArgs φ.place args)
  | .test pos left op right body =>
    .test (φ.place pos) (left.moved φ.place) op (right.moved φ.place) (φ.body body)
  | .stop pos => .stop (φ.place pos)
  | .output pos value => .output (φ.place pos) (value.moved φ.place)

def procedure (p : Procedure) : Procedure := ⟨p.name, p.params, φ.body p.body, φ.place p.pos⟩

def procedures (t : Table Procedure) : Table Procedure :=
  t.map fun entry => (entry.1, φ.procedure entry.2)

def frame (f : CallFrame) : CallFrame := ⟨f.procedure, φ.place f.pos⟩

def calls (s : CallStack) : CallStack := ⟨s.frames.map φ.frame, s.depth, by simp [s.depth_eq]⟩

def machine (m : Machine) : Machine where
  env := { m.env with procedures := φ.procedures m.env.procedures }
  turtle := m.turtle
  random := m.random
  steps := m.steps + φ.taken
  calls := φ.calls m.calls
  events := m.events ++ φ.earlier

def outcome {α : Type} : Outcome α → Outcome α
  | .done v m => .done v (φ.machine m)
  | .failed e m => .failed (φ.error e) (φ.machine m)
  | .outOfFuel => .outOfFuel

/-- What a counterpart owes, given the context of a run and that of its counterpart. Behind a
    statement that terminates its list there may be anything. -/
structure Lawful (ctx ctx' : Context) : Prop where
  nil : φ.body [] = []
  cons (s : Stmt) (rest : List Stmt) :
    ∃ others, φ.body (s :: rest) = φ.stmt s :: others ∧
      (Lint.terminates s = false → others = φ.body rest)
  error (cause : Cause) (pos : Position) (calls : List CallFrame) :
    φ.error (RuntimeError.at cause ctx.source pos calls) =
      RuntimeError.at cause ctx'.source (φ.place pos) (calls.map φ.frame)
  refusal (steps : Nat) : ctx'.refusal (steps + φ.taken) = ctx.refusal steps
  recursion : ctx'.limits.recursion = ctx.limits.recursion

theorem pos_stmt (s : Stmt) : (φ.stmt s).pos = φ.place s.pos := by
  cases s <;> rfl

theorem procedures_set (t : Table Procedure) (name : Name) (p : Procedure) :
    φ.procedures (t.set name p) = (φ.procedures t).set name (φ.procedure p) :=
  t.map_set φ.procedure name p

theorem procedures_get (t : Table Procedure) (name : Name) :
    (φ.procedures t).get? name = (t.get? name).map φ.procedure :=
  t.map_get φ.procedure name

theorem procedureNames_machine (m : Machine) :
    (φ.machine m).env.procedureNames = m.env.procedureNames := by
  simp only [Environment.procedureNames, Table.names, machine, procedures, List.map_map]
  rfl

theorem machine_define (m : Machine) (p : Procedure) :
    (φ.machine m).define (φ.procedure p) = φ.machine (m.define p) := by
  have table := φ.procedures_set m.env.procedures p.name p
  simp only [machine, Machine.define, Environment.define, Machine.report, List.cons_append]
  rw [table]
  rfl

theorem machine_called (m : Machine) (p : Procedure) (params : Table Float) (pos : Position) :
    (φ.machine m).called (φ.procedure p) params (φ.place pos) = φ.machine (m.called p params pos) :=
  rfl

theorem machine_leave (m : Machine) : (φ.machine m).leave = φ.machine m.leave := by
  simp only [machine, Machine.leave, Environment.leave, calls, CallStack.pop, List.map_tail]

theorem machine_drawn (m : Machine) (limit : Float) :
    (φ.machine m).drawn limit = φ.outcome (m.drawn limit) := by
  have random : (φ.machine m).random = m.random := rfl
  unfold Machine.drawn Machine.draw
  rw [random]
  generalize m.random.draw = pair
  rfl

theorem outcome_bind {α β : Type} {o : Outcome α} {f g : α → Machine → Outcome β}
    (same : ∀ v m, o = .done v m → g v (φ.machine m) = φ.outcome (f v m)) :
    (φ.outcome o).bind g = φ.outcome (o.bind f) := by
  cases o with
  | done v m => exact same v m rfl
  | failed e m => rfl
  | outOfFuel => rfl

theorem outcome_map {α β : Type} (f : α → β) (o : Outcome α) :
    (φ.outcome o).map f = φ.outcome (o.map f) := by
  cases o <;> rfl

theorem outcome_leave {α : Type} (o : Outcome α) :
    (φ.outcome o).onMachine Machine.leave = φ.outcome (o.onMachine Machine.leave) := by
  cases o with
  | done v m => simp only [outcome, Outcome.onMachine, machine_leave]
  | failed e m => simp only [outcome, Outcome.onMachine, machine_leave]
  | outOfFuel => rfl

structure Commutes (ctx ctx' : Context) (n : Nat) : Prop where
  statements (ss : List Stmt) (m : Machine) :
    Evaluate.statements n ctx' (φ.body ss) (φ.machine m) =
      φ.outcome (Evaluate.statements n ctx ss m)
  statement (s : Stmt) (m : Machine) :
    Evaluate.statement n ctx' (φ.stmt s) (φ.machine m) = φ.outcome (Evaluate.statement n ctx s m)
  rounds (pos : Position) (body : List Stmt) (total : Float) (i : Nat) (m : Machine) :
    Evaluate.rounds n ctx' (φ.place pos) (φ.body body) total i (φ.machine m) =
      φ.outcome (Evaluate.rounds n ctx pos body total i m)
  callRounds (pos : Position) (p : Procedure) (total : Float) (i : Nat) (m : Machine) :
    Evaluate.callRounds n ctx' (φ.place pos) (φ.procedure p) total i (φ.machine m) =
      φ.outcome (Evaluate.callRounds n ctx pos p total i m)
  operand (what : Operand) (e : Expr) (m : Machine) :
    Evaluate.operand n ctx' what (e.moved φ.place) (φ.machine m) =
      φ.outcome (Evaluate.operand n ctx what e m)
  expr (e : Expr) (m : Machine) :
    Evaluate.expr n ctx' (e.moved φ.place) (φ.machine m) = φ.outcome (Evaluate.expr n ctx e m)
  arguments (es : List Expr) (m : Machine) :
    Evaluate.arguments n ctx' (movedArgs φ.place es) (φ.machine m) =
      φ.outcome (Evaluate.arguments n ctx es m)
  call (pos : Position) (name : Name) (args : List Expr) (m : Machine) :
    Evaluate.call n ctx' (φ.place pos) name (movedArgs φ.place args) (φ.machine m) =
      φ.outcome (Evaluate.call n ctx pos name args m)
  invoke (p : Procedure) (params : Table Float) (pos : Position) (m : Machine) :
    Evaluate.invoke n ctx' (φ.procedure p) params (φ.place pos) (φ.machine m) =
      φ.outcome (Evaluate.invoke n ctx p params pos m)

section
variable {φ} {ctx ctx' : Context} (law : φ.Lawful ctx ctx')
include law

theorem fail_commutes {α : Type} (cause : Cause) (pos : Position) (m : Machine) :
    Evaluate.fail (α := α) ctx' cause (φ.place pos) (φ.machine m) =
      φ.outcome (Evaluate.fail ctx cause pos m) := by
  simp only [Evaluate.fail, outcome, law.error]
  rfl

theorem step_commutes (pos : Position) (m : Machine) :
    Evaluate.step ctx' (φ.place pos) (φ.machine m) = φ.outcome (Evaluate.step ctx pos m) := by
  have ticked : (φ.machine m).tick = φ.machine m.tick := by
    simp only [machine, Machine.tick, Nat.add_right_comm]
  have steps : (φ.machine m.tick).steps = m.tick.steps + φ.taken := rfl
  rw [Evaluate.step_eq_refusal, Evaluate.step_eq_refusal, ticked, steps, law.refusal]
  cases ctx.refusal m.tick.steps with
  | none => rfl
  | some cause => exact fail_commutes law cause pos m.tick

theorem procedure_commutes {α : Type} (name : Name) (pos : Position) (m : Machine)
    {f g : Procedure → Machine → Outcome α}
    (same : ∀ p, m.env.procedure? name = some p →
      g (φ.procedure p) (φ.machine m) = φ.outcome (f p m)) :
    (Evaluate.procedure ctx' name (φ.place pos) (φ.machine m)).bind g =
      φ.outcome ((Evaluate.procedure ctx name pos m).bind f) := by
  have found : (φ.machine m).env.procedure? name = (m.env.procedure? name).map φ.procedure :=
    φ.procedures_get m.env.procedures name
  rw [Evaluate.procedure, Evaluate.procedure, found, procedureNames_machine]
  cases known : m.env.procedure? name with
  | none => exact congrArg (Outcome.bind · g) (fail_commutes law _ pos m)
  | some p => exact same p known

variable {n : Nat} (ih : φ.Commutes ctx ctx' n)
include ih

theorem statements_commute (ss : List Stmt) (m : Machine) :
    Evaluate.statements (n + 1) ctx' (φ.body ss) (φ.machine m) =
      φ.outcome (Evaluate.statements (n + 1) ctx ss m) := by
  cases ss with
  | nil =>
    rw [law.nil]
    simp only [Evaluate.statements, outcome]
  | cons s rest =>
    obtain ⟨others, body, same⟩ := law.cons s rest
    rw [body]
    simp only [Evaluate.statements, pos_stmt, step_commutes law]
    refine φ.outcome_bind fun _ mid _ => ?_
    rw [ih.statement]
    refine φ.outcome_bind fun signal after ended => ?_
    cases signal with
    | finished =>
      have goesOn : Lint.terminates s = false := by
        cases terminates : Lint.terminates s with
        | false => rfl
        | true => exact absurd rfl (Evaluate.statement_terminates terminates ended)
      rw [same goesOn]
      exact ih.statements rest after
    | stop => rfl
    | output value => rfl

theorem statement_commutes (s : Stmt) (m : Machine) :
    Evaluate.statement (n + 1) ctx' (φ.stmt s) (φ.machine m) =
      φ.outcome (Evaluate.statement (n + 1) ctx s m) := by
  cases s with
  | define pos name namePos params body =>
    simp only [stmt, Evaluate.statement, outcome]
    exact congrArg _ (φ.machine_define m ⟨name, params, body, pos⟩)
  | make pos name value =>
    simp only [stmt, Evaluate.statement, ih.expr]
    exact φ.outcome_bind fun v mid _ => rfl
  | loop pos count body =>
    simp only [stmt, Evaluate.statement, ih.expr]
    exact φ.outcome_bind fun total mid _ => ih.rounds pos body total 0 mid
  | loopCall pos count target =>
    simp only [stmt, Evaluate.statement, ih.expr]
    refine φ.outcome_bind fun total mid _ => procedure_commutes law target pos mid fun p _ => ?_
    have arity : (φ.procedure p).arity = p.arity := rfl
    rw [arity]
    split
    · exact ih.callRounds pos p total 0 mid
    · exact fail_commutes law _ pos mid
  | pen pos down =>
    simp only [stmt, Evaluate.statement]
    rfl
  | move pos forward distance =>
    simp only [stmt, Evaluate.statement, ih.operand]
    exact φ.outcome_bind fun d mid _ => rfl
  | turn pos left angle =>
    simp only [stmt, Evaluate.statement, ih.operand]
    exact φ.outcome_bind fun a mid _ => rfl
  | home pos =>
    simp only [stmt, Evaluate.statement]
    rfl
  | setXY pos x y =>
    simp only [stmt, Evaluate.statement, ih.operand]
    refine φ.outcome_bind fun x mid _ => ?_
    rw [ih.operand]
    exact φ.outcome_bind fun y mid _ => rfl
  | setHeading pos angle =>
    simp only [stmt, Evaluate.statement, ih.operand]
    exact φ.outcome_bind fun a mid _ => rfl
  | call pos name args =>
    simp only [stmt, Evaluate.statement, ih.call]
    exact φ.outcome_bind fun _ mid _ => rfl
  | test pos left op right body =>
    simp only [stmt, Evaluate.statement, ih.expr]
    refine φ.outcome_bind fun l mid _ => ?_
    rw [ih.expr]
    refine φ.outcome_bind fun r mid _ => ?_
    split
    · exact ih.statements body mid
    · rfl
  | stop pos =>
    simp only [stmt, Evaluate.statement]
    rfl
  | output pos value =>
    simp only [stmt, Evaluate.statement, ih.expr]
    exact φ.outcome_bind fun v mid _ => rfl

theorem rounds_commute (pos : Position) (body : List Stmt) (total : Float) (i : Nat)
    (m : Machine) :
    Evaluate.rounds (n + 1) ctx' (φ.place pos) (φ.body body) total i (φ.machine m) =
      φ.outcome (Evaluate.rounds (n + 1) ctx pos body total i m) := by
  simp only [Evaluate.rounds]
  split
  · rw [step_commutes law]
    refine φ.outcome_bind fun _ mid _ => ?_
    rw [ih.statements]
    refine φ.outcome_bind fun signal after _ => ?_
    cases signal with
    | finished => exact ih.rounds pos body total (i + 1) after
    | stop => rfl
    | output value => rfl
  · rfl

theorem callRounds_commute (pos : Position) (p : Procedure) (total : Float) (i : Nat)
    (m : Machine) :
    Evaluate.callRounds (n + 1) ctx' (φ.place pos) (φ.procedure p) total i (φ.machine m) =
      φ.outcome (Evaluate.callRounds (n + 1) ctx pos p total i m) := by
  simp only [Evaluate.callRounds]
  split
  · rw [step_commutes law]
    refine φ.outcome_bind fun _ mid _ => ?_
    rw [ih.invoke]
    exact φ.outcome_bind fun _ after _ => ih.callRounds pos p total (i + 1) after
  · rfl

theorem operand_commutes (what : Operand) (e : Expr) (m : Machine) :
    Evaluate.operand (n + 1) ctx' what (e.moved φ.place) (φ.machine m) =
      φ.outcome (Evaluate.operand (n + 1) ctx what e m) := by
  simp only [Evaluate.operand, ih.expr]
  refine φ.outcome_bind fun v mid _ => ?_
  simp only [Evaluate.finite, Expr.moved_pos]
  split
  · rfl
  · exact fail_commutes law _ e.pos mid

theorem expr_commutes (e : Expr) (m : Machine) :
    Evaluate.expr (n + 1) ctx' (e.moved φ.place) (φ.machine m) =
      φ.outcome (Evaluate.expr (n + 1) ctx e m) := by
  simp only [Evaluate.expr, Expr.moved_pos, step_commutes law]
  refine φ.outcome_bind fun _ mid _ => ?_
  cases e with
  | number pos value => rfl
  | param pos name =>
    have same : (φ.machine mid).env.param? name = mid.env.param? name := rfl
    simp only [Expr.moved, same]
    cases mid.env.param? name with
    | some value => rfl
    | none => exact fail_commutes law _ pos mid
  | var pos name =>
    have same : (φ.machine mid).env.global? name = mid.env.global? name := rfl
    simp only [Expr.moved, same]
    cases mid.env.global? name with
    | some value => rfl
    | none => exact fail_commutes law _ pos mid
  | group pos inner => exact ih.expr inner mid
  | negate pos inner =>
    simp only [Expr.moved, ih.expr]
    exact φ.outcome_map _ _
  | random pos limit =>
    simp only [Expr.moved, ih.expr]
    exact φ.outcome_bind fun l after _ => φ.machine_drawn after l
  | binary op left right =>
    simp only [Expr.moved, ih.expr]
    refine φ.outcome_bind fun l after _ => ?_
    rw [ih.expr]
    exact φ.outcome_map _ _
  | call pos name args =>
    simp only [Expr.moved, ih.call]
    refine φ.outcome_bind fun result after _ => ?_
    cases result with
    | some value => rfl
    | none => exact fail_commutes law _ pos after

omit law in
theorem arguments_commute (es : List Expr) (m : Machine) :
    Evaluate.arguments (n + 1) ctx' (movedArgs φ.place es) (φ.machine m) =
      φ.outcome (Evaluate.arguments (n + 1) ctx es m) := by
  cases es with
  | nil =>
    simp only [movedArgs, Evaluate.arguments]
    rfl
  | cons e rest =>
    simp only [movedArgs, Evaluate.arguments, ih.expr]
    refine φ.outcome_bind fun v mid _ => ?_
    rw [ih.arguments]
    exact φ.outcome_map _ _

theorem call_commutes (pos : Position) (name : Name) (args : List Expr) (m : Machine) :
    Evaluate.call (n + 1) ctx' (φ.place pos) name (movedArgs φ.place args) (φ.machine m) =
      φ.outcome (Evaluate.call (n + 1) ctx pos name args m) := by
  simp only [Evaluate.call]
  refine procedure_commutes law name pos m fun p _ => ?_
  have arity : (φ.procedure p).arity = p.arity := rfl
  rw [movedArgs_length, arity]
  split
  · rw [ih.arguments]
    exact φ.outcome_bind fun values after _ => ih.invoke p _ pos after
  · exact fail_commutes law _ pos m

theorem invoke_commutes (p : Procedure) (params : Table Float) (pos : Position) (m : Machine) :
    Evaluate.invoke (n + 1) ctx' (φ.procedure p) params (φ.place pos) (φ.machine m) =
      φ.outcome (Evaluate.invoke (n + 1) ctx p params pos m) := by
  have depth : (φ.machine m).calls.depth = m.calls.depth := rfl
  have body := ih.statements p.body (m.called p params pos)
  rw [← machine_called] at body
  simp only [Evaluate.invoke, law.recursion, depth]
  split
  · exact fail_commutes law _ pos m
  · refine (congrArg (fun o => (Outcome.onMachine Machine.leave o).bind _) body).trans ?_
    rw [outcome_leave]
    refine φ.outcome_bind fun signal after _ => ?_
    cases signal <;> rfl

end

theorem commutes {φ : Counterpart} {ctx ctx' : Context} (law : φ.Lawful ctx ctx') (n : Nat) :
    φ.Commutes ctx ctx' n := by
  induction n with
  | zero =>
    constructor <;> intros <;>
      simp only [Evaluate.statements, Evaluate.statement, Evaluate.rounds, Evaluate.callRounds,
        Evaluate.operand, Evaluate.expr, Evaluate.arguments, Evaluate.call, Evaluate.invoke,
        outcome]
  | succ n ih =>
    exact ⟨statements_commute law ih, statement_commutes law ih, rounds_commute law ih,
      callRounds_commute law ih, operand_commutes law ih, expr_commutes law ih,
      arguments_commute ih, call_commutes law ih, invoke_commutes law ih⟩

end Counterpart
end TurtleLogo
