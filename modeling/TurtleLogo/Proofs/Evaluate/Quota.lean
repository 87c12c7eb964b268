import TurtleLogo.Proofs.Evaluate.Law
import TurtleLogo.Session

/-!
Step quotas. A run with a quota goes as the run without until a step is one too many, and fails
there. It always comes to an end: between two steps only a bounded number of evaluations call
one another, so the steps left bound the fuel that is needed.
-/
namespace TurtleLogo
open Text

def Context.withQuota (ctx : Context) (q : Nat) : Context :=
  { ctx with limits := { ctx.limits with stepQuota := q } }

namespace Evaluate
variable {ctx : Context} {pos : Position} {m : Machine}

theorem step_granted
    (granted : ctx.limits.stepQuota = 0 ∨ m.tick.steps ≤ ctx.limits.stepQuota) :
    step ctx pos m =
      if ctx.cancelledAt m.tick.steps then fail ctx .cancelled pos m.tick else .done () m.tick := by
  rw [step_eq, if_neg]
  simp only [Bool.and_eq_true, decide_eq_true_eq, not_and]
  omega

theorem step_refused (positive : 0 < ctx.limits.stepQuota)
    (beyond : ctx.limits.stepQuota < m.tick.steps) :
    step ctx pos m = fail ctx (.stepQuota ctx.limits.stepQuota) pos m.tick := by
  rw [step_eq, if_pos]
  simp only [Bool.and_eq_true, decide_eq_true_eq]
  exact ⟨positive, beyond⟩

end Evaluate

/-- How a run with a quota compares with the run without. It is the same where the quota suffices
    and fails at the first step behind the quota otherwise. -/
inductive Cut (q : Nat) {α : Type} : Outcome α → Outcome α → Prop where
  | same {o : Outcome α} (within : ∀ m, o.machine? = some m → m.steps ≤ q) : Cut q o o
  | short {o : Outcome α} {e : RuntimeError} {m : Machine} (cause : e.cause = .stepQuota q)
      (steps : m.steps = q + 1)
      (beyond : ∀ after, o.machine? = some after →
        q < after.steps ∧ m.turtle.trail <:+ after.turtle.trail) :
      Cut q o (.failed e m)

namespace Cut
variable {q : Nat} {α β : Type}

theorem done (v : α) {m : Machine} (within : m.steps ≤ q) : Cut q (.done v m) (.done v m) :=
  .same fun _ ends => Option.some.inj ends ▸ within

theorem failed (e : RuntimeError) {m : Machine} (within : m.steps ≤ q) :
    Cut q (.failed (α := α) e m) (.failed e m) :=
  .same fun _ ends => Option.some.inj ends ▸ within

theorem bind {full cut : Outcome α} {f g : α → Machine → Outcome β} (first : Cut q full cut)
    (second : ∀ v m, m.steps ≤ q → Cut q (f v m) (g v m))
    (grows : ∀ v m after, (f v m).machine? = some after → m.GrowsTo after) :
    Cut q (full.bind f) (cut.bind g) := by
  cases first with
  | same within =>
    cases full with
    | done v m => exact second v m (within m rfl)
    | failed e m => exact failed e (within m rfl)
    | outOfFuel => exact .same fun _ ends => by simp [Outcome.bind, Outcome.machine?] at ends
  | short cause steps beyond =>
    refine .short cause steps fun after ends => ?_
    obtain ⟨v, mid, result, later⟩ | ⟨e, failure⟩ := Outcome.machine_bind ends
    · have late := beyond mid (by rw [result]; rfl)
      have growth := grows v mid after later
      exact ⟨Nat.lt_of_lt_of_le late.1 growth.1, late.2.trans growth.2⟩
    · exact beyond after (by rw [failure]; rfl)

theorem leave {full cut : Outcome α} (inside : Cut q full cut) :
    Cut q (full.onMachine Machine.leave) (cut.onMachine Machine.leave) := by
  cases inside with
  | same within =>
    refine .same fun m ends => ?_
    rw [Outcome.machine_onMachine] at ends
    obtain ⟨mid, reached, rfl⟩ := Option.map_eq_some_iff.mp ends
    exact within mid reached
  | short cause steps beyond =>
    refine .short cause steps fun after ends => ?_
    rw [Outcome.machine_onMachine] at ends
    obtain ⟨mid, reached, rfl⟩ := Option.map_eq_some_iff.mp ends
    exact beyond mid reached

theorem step (ctx : Context) (pos : Position) {m : Machine} (within : m.steps ≤ q)
    (positive : 0 < q) :
    Cut q (Evaluate.step (ctx.withQuota 0) pos m) (Evaluate.step (ctx.withQuota q) pos m) := by
  have unlimited : ∀ after, (Evaluate.step (ctx.withQuota 0) pos m).machine? = some after →
      after = m.tick := by
    intro after ends
    rcases Evaluate.step_cases (ctx.withQuota 0) pos m with taken | ⟨cause, refused⟩
    · rw [taken] at ends
      exact (Option.some.inj ends).symm
    · rw [refused] at ends
      exact (Option.some.inj ends).symm
  by_cases enough : m.tick.steps ≤ q
  · have agree : Evaluate.step (ctx.withQuota q) pos m = Evaluate.step (ctx.withQuota 0) pos m := by
      rw [Evaluate.step_granted (.inr enough), Evaluate.step_granted (.inl rfl)]
      rfl
    rw [agree]
    exact .same fun after ends => unlimited after ends ▸ enough
  · have refused : Evaluate.step (ctx.withQuota q) pos m =
        Evaluate.fail (ctx.withQuota q) (.stepQuota q) pos m.tick :=
      Evaluate.step_refused positive (Nat.lt_of_not_le enough)
    rw [refused]
    refine .short rfl ?_ fun after ends => ?_
    · simp only [Machine.tick] at enough ⊢
      omega
    · obtain rfl := unlimited after ends
      exact ⟨by omega, List.suffix_refl _⟩

end Cut

theorem Script.exec_cut {α : Type} {q : Nat} {ctx : Context} (positive : 0 < q)
    {full cut : (t : Task) → Machine → Outcome t.Result}
    (tasks : ∀ t m, m.steps ≤ q → Cut q (full t m) (cut t m))
    (grows : ∀ t m after, (full t m).machine? = some after → m.GrowsTo after) (script : Script α)
    {m : Machine} (within : m.steps ≤ q) :
    Cut q (script.exec (ctx.withQuota 0) full m) (script.exec (ctx.withQuota q) cut m) := by
  have later : ∀ (script : Script α) (m after : Machine),
      (script.exec (ctx.withQuota 0) full m).machine? = some after → m.GrowsTo after :=
    fun script _ _ ends => growth_is_law.exec grows script ends
  induction script generalizing m with
  | done value =>
    simp only [exec]
    exact .done value within
  | fail cause pos =>
    simp only [exec]
    exact .failed _ within
  | step pos next ih =>
    simp only [exec]
    exact (Cut.step ctx pos within positive).bind (fun _ mid steps => ih steps)
      fun _ => later next
  | inspect next ih =>
    simp only [exec]
    exact ih m.env within
  | change c next ih =>
    simp only [exec]
    exact ih (by rwa [change_steps])
  | draw limit next ih =>
    obtain ⟨value, random, drawn⟩ := m.drawn_eq limit
    simp only [exec, drawn]
    exact ih value within
  | perform t next ih =>
    simp only [exec]
    exact (tasks t m within).bind (fun v mid steps => ih v steps) fun v => later (next v)
  | enter p params pos next ih =>
    simp only [exec]
    have refuses : (ctx.withQuota q).refuses m = (ctx.withQuota 0).refuses m := rfl
    rw [refuses]
    split
    · exact .failed _ within
    · exact (tasks _ (m.called p params pos) within).leave.bind (fun v mid steps => ih v steps)
        fun v => later (next v)

theorem Task.run_cut {q : Nat} (positive : 0 < q) (ctx : Context) (n : Nat) (t : Task)
    {m : Machine} (within : m.steps ≤ q) :
    Cut q (t.run n (ctx.withQuota 0) m) (t.run n (ctx.withQuota q) m) := by
  induction n generalizing t m with
  | zero =>
    rw [run_zero, run_zero]
    exact .same fun _ ends => by simp [Outcome.machine?] at ends
  | succ n ih =>
    rw [run_succ, run_succ]
    exact t.script.exec_cut positive (fun s mid steps => ih s steps)
      (fun s mid after ends => growth_is_law.run ends) within

/-- How many evaluations may call one another from a task on before a step is taken. -/
@[simp] def Task.rank : Task → Nat
  | statements _ | rounds .. | callRounds .. | expr _ => 1
  | operand .. | arguments _ | invoke .. => 2
  | call .. => 3
  | statement _ => 4

@[simp] def Task.leastSteps : Task → Nat
  | expr _ => 1
  | _ => 0

/-- The tasks of a script have ranks below the budget, to which every step adds four. -/
def Script.Within {α : Type} : Nat → Script α → Prop
  | _, done _ => True
  | _, fail _ _ => True
  | budget, step _ next => next.Within (budget + 4)
  | budget, inspect next => ∀ env, (next env).Within budget
  | budget, change _ next => next.Within budget
  | budget, draw _ next => ∀ v, (next v).Within budget
  | budget, perform t next => t.rank < budget ∧ ∀ v, (next v).Within (budget + 4 * t.leastSteps)
  | budget, enter p _ _ next =>
    (Task.statements p.body).rank < budget ∧ ∀ signal, (next signal).Within budget

namespace Script
variable {α : Type} {budget : Nat}

theorem within_lookup {name : Name} {pos : Position} {next : Procedure → Script α}
    (all : ∀ p, (next p).Within budget) : (lookup name pos next).Within budget := by
  simp only [lookup, Within]
  intro env
  cases env.procedure? name with
  | some p => exact all p
  | none => trivial

theorem within_found {value : Option α} {missing : Cause} {pos : Position} :
    (found value missing pos).Within budget := by
  cases value <;> trivial

theorem within_finish {t : Task} (low : t.rank < budget) : (finish t).Within budget :=
  ⟨low, fun _ => trivial⟩

theorem within_ite {condition : Prop} [Decidable condition] {yes no : Script α}
    (first : yes.Within budget) (second : no.Within budget) :
    (if condition then yes else no).Within budget := by
  split
  · exact first
  · exact second

end Script

theorem Signal.within_andThen {budget : Nat} {signal : Signal} {next : Script Signal}
    (later : next.Within budget) : (signal.andThen next).Within budget := by
  cases signal with
  | finished => exact later
  | stop => trivial
  | output value => trivial

open Script in
theorem Stmt.script_within (s : Stmt) : s.script.Within 4 := by
  cases s with
  | define pos name namePos params body => trivial
  | make pos name value => exact ⟨by simp, fun _ => trivial⟩
  | loop pos count body =>
    exact ⟨by simp, fun _ => within_finish (by simp)⟩
  | loopCall pos count target =>
    refine ⟨by simp, fun _ => within_lookup fun p => within_ite ?_ trivial⟩
    exact within_finish (by simp)
  | pen pos down => trivial
  | move pos forward distance => exact ⟨by simp, fun _ => trivial⟩
  | turn pos left angle => exact ⟨by simp, fun _ => trivial⟩
  | home pos => trivial
  | setXY pos x y =>
    exact ⟨by simp, fun _ => ⟨by simp, fun _ => trivial⟩⟩
  | setHeading pos angle => exact ⟨by simp, fun _ => trivial⟩
  | call pos name args => exact ⟨by simp, fun _ => trivial⟩
  | test pos left op right body =>
    refine ⟨by simp, fun _ => ⟨by simp, fun _ => ?_⟩⟩
    exact within_ite (within_finish (by simp)) trivial
  | stop pos => trivial
  | output pos value => exact ⟨by simp, fun _ => trivial⟩

open Script in
theorem Expr.script_within (e : Expr) : e.script.Within 5 := by
  cases e with
  | number pos value => trivial
  | param pos name => exact fun _ => within_found
  | var pos name => exact fun _ => within_found
  | group pos inner => exact within_finish (by simp)
  | negate pos inner => exact ⟨by simp, fun _ => trivial⟩
  | random pos limit => exact ⟨by simp, fun _ _ => trivial⟩
  | binary op left right =>
    exact ⟨by simp, fun _ => ⟨by simp, fun _ => trivial⟩⟩
  | call pos name args => exact ⟨by simp, fun _ => within_found⟩

open Script in
theorem Task.script_within (t : Task) : t.script.Within t.rank := by
  cases t with
  | statements ss =>
    cases ss with
    | nil => trivial
    | cons s rest =>
      exact ⟨by simp, fun _ => Signal.within_andThen (within_finish (by simp))⟩
  | statement s => exact s.script_within
  | rounds pos body total i =>
    refine within_ite ?_ trivial
    exact ⟨by simp, fun _ => Signal.within_andThen (within_finish (by simp))⟩
  | callRounds pos p total i =>
    refine within_ite ?_ trivial
    exact ⟨by simp, fun _ => within_finish (by simp)⟩
  | operand what e => exact ⟨by simp, fun _ => within_ite trivial trivial⟩
  | expr e => exact e.script_within
  | arguments es =>
    cases es with
    | nil => trivial
    | cons e rest =>
      -- the first argument took a step, so the others may be read with the same rank
      exact ⟨by simp, fun _ => ⟨by simp, fun _ => trivial⟩⟩
  | call pos name args =>
    refine within_lookup fun p => within_ite ?_ trivial
    exact ⟨by simp, fun _ => within_finish (by simp)⟩
  | invoke p params pos =>
    refine ⟨by simp, fun signal => ?_⟩
    cases signal <;> trivial

structure Task.Bounded (q : Nat) (run : (t : Task) → Machine → Outcome t.Result) : Prop where
  within {t : Task} {v : t.Result} {m after : Machine} (before : m.steps ≤ q)
    (result : run t m = .done v after) : after.steps ≤ q
  least {t : Task} {v : t.Result} {m after : Machine} (result : run t m = .done v after) :
    m.steps + t.leastSteps ≤ after.steps

theorem Evaluate.step_within {q : Nat} {ctx : Context} {pos : Position} {m : Machine}
    (positive : 0 < q) (taken : step (ctx.withQuota q) pos m = .done () m.tick) :
    m.tick.steps ≤ q := by
  rcases Nat.lt_or_ge q m.tick.steps with beyond | left
  · have refused : step (ctx.withQuota q) pos m = fail _ _ pos m.tick :=
      step_refused positive beyond
    rw [refused] at taken
    simp [fail] at taken
  · exact left

/-- A script within its budget comes to an end if the tasks do that the budget allows. The budget
    is counted together with four for each step left. -/
theorem Script.exec_ends {α : Type} {q : Nat} (positive : 0 < q) {ctx : Context}
    {run : (t : Task) → Machine → Outcome t.Result} (bounded : Task.Bounded q run)
    (script : Script α) {budget : Nat} (allowed : script.Within budget) {m : Machine}
    (within : m.steps ≤ q)
    (tasks : ∀ t mid, mid.steps ≤ q →
      t.rank + 4 * (q + 1 - mid.steps) < budget + 4 * (q + 1 - m.steps) →
      run t mid ≠ .outOfFuel) :
    script.exec (ctx.withQuota q) run m ≠ .outOfFuel := by
  induction script generalizing budget m with
  | done value => simp [exec]
  | fail cause pos => simp [exec, Evaluate.fail]
  | step pos next ih =>
    simp only [exec]
    rcases Evaluate.step_cases (ctx.withQuota q) pos m with taken | ⟨cause, refused⟩
    · have left := Evaluate.step_within positive taken
      rw [taken]
      refine ih allowed left fun t mid steps low => tasks t mid steps ?_
      simp only [Machine.tick] at left low
      omega
    · simp [refused, Evaluate.fail, Outcome.bind]
  | inspect next ih =>
    simp only [exec]
    exact ih m.env (allowed m.env) within tasks
  | change c next ih =>
    simp only [exec]
    have steps := change_steps c m
    refine ih allowed (by omega) ?_
    rwa [steps]
  | draw limit next ih =>
    obtain ⟨value, random, drawn⟩ := m.drawn_eq limit
    simp only [exec, drawn]
    exact ih value (allowed value) within tasks
  | perform t next ih =>
    simp only [exec]
    have ended := tasks t m within (by have low := allowed.1; omega)
    cases result : run t m with
    | done v after =>
      have left := bounded.within within result
      have taken := bounded.least result
      refine ih v (allowed.2 v) left fun s mid steps low => tasks s mid steps ?_
      omega
    | failed e after => simp [Outcome.bind]
    | outOfFuel => exact absurd result ended
  | enter p params pos next ih =>
    simp only [exec]
    split
    · simp [Evaluate.fail]
    · have entered : (m.called p params pos).steps = m.steps := rfl
      have low := allowed.1
      have ended := tasks (.statements p.body) (m.called p params pos) within (by omega)
      cases result : run (.statements p.body) (m.called p params pos) with
      | done signal inside =>
        have left : inside.steps ≤ q := bounded.within (entered ▸ within) result
        have taken := bounded.least result
        refine ih signal (allowed.2 signal) left fun s mid steps low => tasks s mid steps ?_
        simp only [Machine.leave] at low
        omega
      | failed e inside => simp [Outcome.bind, Outcome.onMachine]
      | outOfFuel => exact absurd result ended

theorem expr_takes_a_step {n : Nat} {ctx : Context} {e : Expr} {m after : Machine}
    (ends : ((Task.expr e).run n ctx m).machine? = some after) : m.steps < after.steps := by
  cases n with
  | zero => simp [Task.run_zero, Outcome.machine?] at ends
  | succ n =>
    rw [Task.run_succ] at ends
    simp only [Task.script, Script.exec] at ends
    rcases Evaluate.step_cases ctx e.pos m with taken | ⟨cause, refused⟩
    · rw [taken] at ends
      exact (growth_is_law.exec (fun _ _ _ ended => growth_is_law.run ended) e.script ends).1
    · rw [refused] at ends
      obtain rfl := Option.some.inj ends
      exact Nat.lt_succ_self _

theorem Task.run_bounded {q : Nat} (positive : 0 < q) (ctx : Context) (n : Nat) :
    Bounded q fun t => t.run n (ctx.withQuota q) where
  within {t v m after} before result := by
    have cut := run_cut positive ctx n t before
    rw [result] at cut
    generalize t.run n (ctx.withQuota 0) m = full at cut
    cases cut with
    | same within => exact within after rfl
  least {t v m after} result := by
    have ends : (t.run n (ctx.withQuota q) m).machine? = some after := by rw [result]; rfl
    cases t with
    | expr e => exact expr_takes_a_step ends
    | _ => exact (growth_is_law.run ends).1

theorem Task.run_ends {q : Nat} (positive : 0 < q) (ctx : Context) {n : Nat} (t : Task)
    {m : Machine} (within : m.steps ≤ q) (fuel : t.rank + 4 * (q + 1 - m.steps) ≤ n) :
    t.run n (ctx.withQuota q) m ≠ .outOfFuel := by
  induction n generalizing t m with
  | zero => omega
  | succ n ih =>
    rw [run_succ]
    refine t.script.exec_ends positive (run_bounded positive ctx n) t.script_within within ?_
    intro s mid steps low
    exact ih s steps (by omega)

namespace Session
variable {s : Session} {p : Program} {cancelledFrom : Option Nat}

def Ends (limits : Limits) (cancelledFrom : Option Nat) (s : Session) (p : Program)
    (o : Outcome Signal) : Prop :=
  o ≠ .outOfFuel ∧ ∃ fuel, ∀ more, fuel ≤ more → s.evaluate more limits cancelledFrom p = o

theorem ends_of_evaluate {limits : Limits} {n : Nat}
    (ended : s.evaluate n limits cancelledFrom p ≠ .outOfFuel) :
    s.Ends limits cancelledFrom p (s.evaluate n limits cancelledFrom p) :=
  ⟨ended, n, fun _ fuel => Task.run_of_more_fuel (t := .statements p.statements) ended fuel⟩

theorem ends_of_evaluate_eq {limits : Limits} {n : Nat} {o : Outcome Signal}
    (ran : s.evaluate n limits cancelledFrom p = o) (ended : o ≠ .outOfFuel) :
    s.Ends limits cancelledFrom p o := by
  subst ran
  exact ends_of_evaluate ended

theorem ends_under_quota (s : Session) (p : Program) (recursion : Nat)
    (cancelledFrom : Option Nat) {q : Nat} (positive : 0 < q) :
    ∃ o, s.Ends ⟨q, recursion⟩ cancelledFrom p o ∧
      ∃ fuel, ∀ more, fuel ≤ more → Cut q (s.evaluate more ⟨0, recursion⟩ cancelledFrom p) o := by
  have ended : s.evaluate (4 * (q + 1) + 1) ⟨q, recursion⟩ cancelledFrom p ≠ .outOfFuel := by
    refine Task.run_ends positive ⟨⟨0, recursion⟩, cancelledFrom, p.source⟩
      (.statements p.statements) (Nat.zero_le q) ?_
    simp only [machine, Task.rank]
    omega
  obtain ⟨proper, fuel, stable⟩ := ends_of_evaluate ended
  refine ⟨_, ⟨proper, fuel, stable⟩, fuel, fun more enough => ?_⟩
  have cut := Task.run_cut positive ⟨⟨0, recursion⟩, cancelledFrom, p.source⟩ more
    (.statements p.statements) (m := s.machine) (Nat.zero_le q)
  rw [← stable more enough]
  exact cut

theorem outOfFuel_of_not_ends {limits : Limits}
    (endless : ¬∃ o, s.Ends limits cancelledFrom p o) (n : Nat) :
    s.evaluate n limits cancelledFrom p = .outOfFuel := by
  by_cases ended : s.evaluate n limits cancelledFrom p = .outOfFuel
  · exact ended
  · exact absurd ⟨_, ends_of_evaluate ended⟩ endless

end Session

namespace Cut
variable {q : Nat} {α : Type} {full cut : Outcome α} {m : Machine}

theorem steps_le (truncated : Cut q full cut) (ends : cut.machine? = some m) :
    m.steps ≤ q + 1 := by
  cases truncated with
  | same within => exact Nat.le_succ_of_le (within m ends)
  | short cause steps beyond =>
    obtain rfl := Option.some.inj ends
    exact Nat.le_of_eq steps

theorem eq_of_enough (truncated : Cut q full cut) (ends : full.machine? = some m)
    (enough : m.steps ≤ q) : cut = full := by
  cases truncated with
  | same within => rfl
  | short cause steps beyond => exact absurd (beyond m ends).1 (Nat.not_lt.mpr enough)

theorem short_of_beyond (truncated : Cut q full cut) (proper : cut ≠ .outOfFuel)
    (beyond : ∀ after, full.machine? = some after → q < after.steps) :
    ∃ e last, cut = .failed e last ∧ e.cause = .stepQuota q ∧
      ∀ after, full.machine? = some after → last.turtle.trail <:+ after.turtle.trail := by
  cases truncated with
  | same within =>
    cases full with
    | done v m => exact absurd (within m rfl) (Nat.not_le.mpr (beyond m rfl))
    | failed e m => exact absurd (within m rfl) (Nat.not_le.mpr (beyond m rfl))
    | outOfFuel => exact absurd rfl proper
  | @short e last cause steps late =>
    exact ⟨e, last, rfl, cause, fun after ends => (late after ends).2⟩

end Cut

/-- A procedure that does nothing but call itself comes to no end. One round of it takes four
    units of fuel. -/
theorem self_call_outOfFuel {name : Name} {source : Bytes} (n : Nat) {m : Machine}
    (defined : m.env.procedure? name = some ⟨name, [], [.call .nowhere name []], .nowhere⟩) :
    Evaluate.statements (4 * n) ⟨.none, none, source⟩ [.call .nowhere name []] m = .outOfFuel := by
  induction n generalizing m with
  | zero => rfl
  | succ n ih =>
    have taken : Evaluate.step ⟨.none, none, source⟩ (Stmt.call .nowhere name []).pos m =
        .done () m.tick := rfl
    have found : Evaluate.procedure ⟨.none, none, source⟩ name .nowhere m.tick =
        .done ⟨name, [], [.call .nowhere name []], .nowhere⟩ m.tick := by
      have same : m.tick.env.procedure? name = _ := defined
      rw [Evaluate.procedure, same]
    have round := ih
      (m := m.tick.called ⟨name, [], [.call .nowhere name []], .nowhere⟩ [] .nowhere) defined
    have invoked : Evaluate.invoke (4 * n + 1) ⟨.none, none, source⟩
        ⟨name, [], [.call .nowhere name []], .nowhere⟩ (Evaluate.bindParams [] []) .nowhere m.tick =
        .outOfFuel := by
      rw [Evaluate.invoke, if_neg (by simp [Limits.none])]
      exact congrArg (fun o => (Outcome.onMachine Machine.leave o).bind _) round
    rw [show 4 * (n + 1) = 4 * n + 1 + 1 + 1 + 1 from rfl]
    simp [Evaluate.statements, taken, Outcome.bind, Evaluate.statement, Evaluate.call, found,
      Evaluate.arguments, Procedure.arity, invoked]

/-- A quota only truncates. Under a quota every run comes to an end, at most one step behind the
    quota. Where the run without a quota comes to an end, every quota that it does not exceed gives
    the same outcome on the same machine, and every other quota fails with what was drawn so far;
    where it has no end, every quota fails. -/
theorem step_quota_only_truncates (s : Session) (p : Program) (recursion : Nat)
    (cancelledFrom : Option Nat) :
    (∀ q > 0, ∃ o m, s.Ends ⟨q, recursion⟩ cancelledFrom p o ∧ o.machine? = some m ∧
      m.steps ≤ q + 1) ∧
    (∀ o m, s.Ends ⟨0, recursion⟩ cancelledFrom p o → o.machine? = some m →
      (∀ q, m.steps ≤ q → s.Ends ⟨q, recursion⟩ cancelledFrom p o) ∧
      ∀ q, 0 < q → q < m.steps → ∃ e last, s.Ends ⟨q, recursion⟩ cancelledFrom p (.failed e last) ∧
        e.cause = .stepQuota q ∧ last.turtle.segments <+: m.turtle.segments) ∧
    ((¬∃ o, s.Ends ⟨0, recursion⟩ cancelledFrom p o) → ∀ q > 0, ∃ e last,
      s.Ends ⟨q, recursion⟩ cancelledFrom p (.failed e last) ∧ e.cause = .stepQuota q) := by
  refine ⟨?_, ?_, ?_⟩
  · intro q positive
    obtain ⟨o, ends, fuel, truncated⟩ := s.ends_under_quota p recursion cancelledFrom positive
    obtain ⟨m, last⟩ := Outcome.machine_of_proper ends.1
    exact ⟨o, m, ends, last, (truncated fuel (Nat.le_refl _)).steps_le last⟩
  · intro o m ends last
    obtain ⟨proper, needed, stable⟩ := ends
    have compared : ∀ q > 0, ∃ cut, s.Ends ⟨q, recursion⟩ cancelledFrom p cut ∧ Cut q o cut := by
      intro q positive
      obtain ⟨cut, ends, fuel, truncated⟩ := s.ends_under_quota p recursion cancelledFrom positive
      have both := truncated (max needed fuel) (Nat.le_max_right ..)
      rw [stable _ (Nat.le_max_left ..)] at both
      exact ⟨cut, ends, both⟩
    refine ⟨fun q enough => ?_, fun q positive beyond => ?_⟩
    · rcases Nat.eq_zero_or_pos q with rfl | positive
      · exact ⟨proper, needed, stable⟩
      · obtain ⟨cut, ends, truncated⟩ := compared q positive
        rwa [truncated.eq_of_enough last enough] at ends
    · obtain ⟨cut, ends, truncated⟩ := compared q positive
      have late : ∀ after, o.machine? = some after → q < after.steps := by
        intro after also
        obtain rfl := Option.some.inj (last.symm.trans also)
        exact beyond
      obtain ⟨e, stopped, rfl, cause, drawn⟩ := truncated.short_of_beyond ends.1 late
      exact ⟨e, stopped, ends, cause, List.reverse_prefix.mpr (drawn m last)⟩
  · intro endless q positive
    obtain ⟨cut, ends, fuel, truncated⟩ := s.ends_under_quota p recursion cancelledFrom positive
    have both := truncated fuel (Nat.le_refl _)
    rw [Session.outOfFuel_of_not_ends endless] at both
    obtain ⟨e, stopped, rfl, cause, -⟩ := both.short_of_beyond ends.1 (by simp [Outcome.machine?])
    exact ⟨e, stopped, ends, cause⟩

/-- Two moves, of which a quota of one step allows the first; and a procedure without end. -/
theorem step_quota_only_truncates_moves :
    (∃ o m, (Session.start ⟨0, 0⟩).Ends .none none ⟨[.home .nowhere, .home .nowhere], []⟩ o ∧
      o.machine? = some m ∧ m.steps = 2 ∧
      (Session.start ⟨0, 0⟩).Ends ⟨2, 0⟩ none ⟨[.home .nowhere, .home .nowhere], []⟩ o ∧
      ∃ e last, (Session.start ⟨0, 0⟩).Ends ⟨1, 0⟩ none ⟨[.home .nowhere, .home .nowhere], []⟩
        (.failed e last) ∧ e.cause = .stepQuota 1 ∧
        last.turtle.segments <+: m.turtle.segments) ∧
    ∃ e last, (Session.start ⟨0, 0⟩).Ends ⟨9, 0⟩ none
      ⟨[.define .nowhere [102] .nowhere [] [.call .nowhere [102] []], .call .nowhere [102] []], []⟩
      (.failed e last) ∧ e.cause = .stepQuota 9 := by
  refine ⟨?_, ?_⟩
  · have ends : (Session.start ⟨0, 0⟩).Ends .none none ⟨[.home .nowhere, .home .nowhere], []⟩ _ :=
      Session.ends_of_evaluate (n := 3) nofun
    obtain ⟨enough, beyond⟩ := (step_quota_only_truncates _ _ _ _).2.1 _ _ ends rfl
    exact ⟨_, _, ends, rfl, rfl, enough 2 (by decide), beyond 1 (by decide) (by decide)⟩
  · refine (step_quota_only_truncates _ _ _ _).2.2 ?_ 9 (by decide)
    rintro ⟨o, proper, fuel, stable⟩
    have defined : ((Session.start ⟨0, 0⟩).machine.tick.define
        ⟨[102], [], [.call .nowhere [102] []], .nowhere⟩).env.procedure? [102] =
        some ⟨[102], [], [.call .nowhere [102] []], .nowhere⟩ := rfl
    refine proper ?_
    rw [← stable (4 * (fuel + 1) + 1) (by omega)]
    exact self_call_outOfFuel (fuel + 1) defined

end TurtleLogo
