import TurtleLogo.Proofs.Evaluate.Law
import TurtleLogo.Proofs.Program.Calls
import TurtleLogo.Session

/-!
Operands without calls. Nothing in an expression but a call changes the environment or the turtle. A
command that has one effect evaluates its operands first and checks them, so if these contain no
call and the command fails, it has changed neither.
-/
namespace TurtleLogo
open Text

/-- The operands of a command that changes something once it has their values, or ends its body. -/
def Stmt.operands? : Stmt → Option (List Expr)
  | .make _ _ e | .output _ e | .move _ _ e | .turn _ _ e | .setHeading _ e => some [e]
  | .setXY _ x y => some [x, y]
  | _ => none

def Cause.ofOperand : Cause → Bool
  | stepQuota _ | cancelled | undefinedParameter _ | undefinedVariable _ | notFinite .. => true
  | _ => false

def Machine.SameWorld (m after : Machine) : Prop := after.env = m.env ∧ after.turtle = m.turtle

namespace Outcome

/-- The evaluation comes to an end. If it fails that is because of an operand, and the world is that
    of the machine. -/
def Guarded {α : Type} (m : Machine) (post : Machine → Prop) : Outcome α → Prop
  | done _ after => post after
  | failed e after => e.cause.ofOperand = true ∧ m.SameWorld after
  | outOfFuel => False

variable {α β : Type} {m : Machine} {post : Machine → Prop}

theorem Guarded.bind {o : Outcome α} {f : α → Machine → Outcome β}
    (first : o.Guarded m m.SameWorld)
    (second : ∀ v mid, m.SameWorld mid → (f v mid).Guarded m post) : (o.bind f).Guarded m post := by
  cases o with
  | done v mid => exact second v mid first
  | failed e mid => exact first
  | outOfFuel => exact first

theorem Guarded.map {o : Outcome α} (f : α → β) (guarded : o.Guarded m post) :
    (o.map f).Guarded m post := by
  cases o <;> exact guarded

end Outcome

namespace Evaluate
variable {ctx : Context} {start m : Machine}

theorem fail_guarded {α : Type} {cause : Cause} {pos : Position} {post : Machine → Prop}
    (allowed : cause.ofOperand = true) (same : start.SameWorld m) :
    (fail (α := α) ctx cause pos m).Guarded start post :=
  ⟨allowed, same⟩

theorem step_guarded (pos : Position) (same : start.SameWorld m) :
    (step ctx pos m).Guarded start start.SameWorld := by
  rw [step_eq]
  split
  · exact fail_guarded rfl same
  · split
    · exact fail_guarded rfl same
    · exact same

theorem drawn_guarded (limit : Float) (same : start.SameWorld m) :
    (m.drawn limit).Guarded start start.SameWorld := by
  obtain ⟨value, random, drawn⟩ := m.drawn_eq limit
  rw [drawn]
  exact same

theorem expr_guarded {n : Nat} {e : Expr} (callFree : e.calls = []) (fuel : sizeOf e < n)
    (same : start.SameWorld m) : (expr n ctx e m).Guarded start start.SameWorld := by
  induction n generalizing e m with
  | zero => exact absurd fuel (Nat.not_lt_zero _)
  | succ n ih =>
    rw [expr]
    refine (step_guarded e.pos same).bind fun _ mid same => ?_
    cases e with
    | number pos value => exact same
    | param pos name =>
      cases found : mid.env.param? name with
      | some value =>
        simp only [found]
        exact same
      | none =>
        simp only [found]
        exact fail_guarded rfl same
    | var pos name =>
      cases found : mid.env.global? name with
      | some value =>
        simp only [found]
        exact same
      | none =>
        simp only [found]
        exact fail_guarded rfl same
    | group pos inner =>
      have free : inner.calls = [] := callFree
      rw [Expr.group.sizeOf_spec] at fuel
      exact ih free (by omega) same
    | negate pos inner =>
      have free : inner.calls = [] := callFree
      rw [Expr.negate.sizeOf_spec] at fuel
      exact (ih free (by omega) same).map _
    | random pos limit =>
      have free : limit.calls = [] := callFree
      rw [Expr.random.sizeOf_spec] at fuel
      exact (ih free (by omega) same).bind fun l after later => drawn_guarded l later
    | binary op left right =>
      obtain ⟨free, freeRight⟩ := List.append_eq_nil_iff.mp callFree
      rw [Expr.binary.sizeOf_spec] at fuel
      refine (ih free (by omega) same).bind fun l after later => ?_
      exact (ih freeRight (by omega) later).map _
    | call pos name args => cases callFree

theorem operand_guarded {n : Nat} {what : Operand} {e : Expr} (callFree : e.calls = [])
    (fuel : sizeOf e + 1 < n) (same : start.SameWorld m) :
    (operand n ctx what e m).Guarded start start.SameWorld := by
  obtain ⟨n, rfl⟩ : ∃ k, n = k + 1 := ⟨n - 1, by omega⟩
  rw [operand]
  refine (expr_guarded callFree (by omega) same).bind fun v mid later => ?_
  unfold finite
  split
  · exact later
  · exact fail_guarded rfl later

theorem statement_guarded {n : Nat} {s : Stmt} {operands : List Expr}
    (command : s.operands? = some operands) (callFree : callsOfArgs operands = [])
    (fuel : sizeOf operands + 1 < n) :
    (statement n ctx s m).Guarded m fun _ => True := by
  obtain ⟨n, rfl⟩ : ∃ k, n = k + 1 := ⟨n - 1, by omega⟩
  have unchanged : m.SameWorld m := ⟨rfl, rfl⟩
  have one : ∀ {e : Expr}, operands = [e] → e.calls = [] ∧ sizeOf e + 1 < n := by
    rintro e rfl
    rw [callsOfArgs, callsOfArgs, List.append_nil] at callFree
    rw [List.cons.sizeOf_spec, List.nil.sizeOf_spec] at fuel
    exact ⟨callFree, by omega⟩
  cases s with
  | make pos name e | output pos e =>
    obtain ⟨free, enough⟩ := one (Option.some.inj command).symm
    rw [statement]
    exact (expr_guarded free (by omega) unchanged).bind fun v mid _ => trivial
  | move pos _ e | turn pos _ e | setHeading pos e =>
    obtain ⟨free, enough⟩ := one (Option.some.inj command).symm
    rw [statement]
    exact (operand_guarded free enough unchanged).bind fun v mid _ => trivial
  | setXY pos x y =>
    obtain rfl := Option.some.inj command
    simp only [callsOfArgs, List.append_nil, List.append_eq_nil_iff] at callFree
    rw [List.cons.sizeOf_spec, List.cons.sizeOf_spec, List.nil.sizeOf_spec] at fuel
    rw [statement]
    refine (operand_guarded callFree.1 (by omega) unchanged).bind fun vx mid same => ?_
    exact (operand_guarded callFree.2 (by omega) same).bind fun vy last _ => trivial
  | _ => cases command

end Evaluate

theorem Outcome.Guarded.proper {α : Type} {m : Machine} {post : Machine → Prop} {o : Outcome α}
    (guarded : o.Guarded m post) : o ≠ .outOfFuel := by
  rintro rfl
  exact guarded

theorem Outcome.Guarded.same {α : Type} {m after : Machine} {o : Outcome α}
    (guarded : o.Guarded m m.SameWorld) (ends : o.machine? = some after) : m.SameWorld after := by
  cases o with
  | done v last => exact Option.some.inj ends ▸ guarded
  | failed e last => exact Option.some.inj ends ▸ guarded.2
  | outOfFuel => cases ends

theorem Task.guarded_of_enough {t : Task} {ctx : Context} {m : Machine} {post : Machine → Prop}
    {enough n : Nat} (guarded : ∀ k, enough < k → (t.run k ctx m).Guarded m post)
    (ends : t.run n ctx m ≠ .outOfFuel) : (t.run n ctx m).Guarded m post := by
  rw [← Task.run_of_more_fuel ends (Nat.le_add_right n (enough + 1))]
  exact guarded _ (by omega)

/-- Evaluating an expression without calls comes to an end, and changes neither the environment nor
    the turtle. A command whose operands contain no call comes to an end too. If it fails that is
    because of an operand, and environment and turtle are as before. -/
theorem failing_commands_have_no_effect (ctx : Context) :
    (∀ e : Expr, e.calls = [] → ∀ m,
      (∃ fuel, Evaluate.expr fuel ctx e m ≠ .outOfFuel) ∧
      ∀ n after, (Evaluate.expr n ctx e m).machine? = some after →
        after.env = m.env ∧ after.turtle = m.turtle) ∧
    ∀ s operands, Stmt.operands? s = some operands → callsOfArgs operands = [] → ∀ m,
      (∃ fuel, Evaluate.statement fuel ctx s m ≠ .outOfFuel) ∧
      ∀ n e after, Evaluate.statement n ctx s m = .failed e after →
        e.cause.ofOperand = true ∧ after.env = m.env ∧ after.turtle = m.turtle := by
  refine ⟨?_, ?_⟩
  · intro e callFree m
    have guarded : ∀ n, sizeOf e < n → ((Task.expr e).run n ctx m).Guarded m m.SameWorld :=
      fun n fuel => Evaluate.expr_guarded callFree fuel ⟨rfl, rfl⟩
    refine ⟨⟨_, (guarded _ (Nat.lt_succ_self _)).proper⟩, fun n after ends => ?_⟩
    have proper : (Task.expr e).run n ctx m ≠ .outOfFuel := by
      intro short
      have stuck : (Evaluate.expr n ctx e m).machine? = none := congrArg Outcome.machine? short
      rw [stuck] at ends
      cases ends
    exact (Task.guarded_of_enough guarded proper).same ends
  · intro s operands command callFree m
    have guarded : ∀ n, sizeOf operands + 1 < n →
        ((Task.statement s).run n ctx m).Guarded m fun _ => True :=
      fun n fuel => Evaluate.statement_guarded command callFree fuel
    refine ⟨⟨_, (guarded _ (Nat.lt_succ_self _)).proper⟩, fun n e after failed => ?_⟩
    have run : (Task.statement s).run n ctx m = .failed e after := failed
    have same := Task.guarded_of_enough guarded (n := n) (by rw [run]; nofun)
    rw [run] at same
    exact same

def unsetPlace : Stmt := .setXY ⟨0, 1, 1⟩ (.number ⟨6, 1, 7⟩ 1) (.var ⟨8, 1, 9⟩ [97])

/-- The first operand is finite and the second is refused. -/
theorem failing_commands_have_no_effect_of_unset_place :
    unsetPlace.operands? = some [.number ⟨6, 1, 7⟩ 1, .var ⟨8, 1, 9⟩ [97]] ∧
      callsOfArgs [.number ⟨6, 1, 7⟩ 1, .var ⟨8, 1, 9⟩ [97]] = [] ∧
      ∃ e after, Evaluate.statement 3 ⟨.none, none, []⟩ unsetPlace
          (Session.start ⟨0, 0⟩).machine = .failed e after ∧
        e.cause = .undefinedVariable [97] ∧ e.cause.ofOperand = true ∧
        after.env = Environment.empty ∧ after.turtle = Turtle.initial := by
  have free : callsOfArgs [.number ⟨6, 1, 7⟩ 1, .var ⟨8, 1, 9⟩ [97]] = [] := rfl
  obtain ⟨e, after, failed, cause⟩ : ∃ e after, Evaluate.statement 3 ⟨.none, none, []⟩ unsetPlace
      (Session.start ⟨0, 0⟩).machine = .failed e after ∧ e.cause = .undefinedVariable [97] :=
    ⟨_, _, rfl, rfl⟩
  obtain ⟨-, commands⟩ := failing_commands_have_no_effect ⟨.none, none, []⟩
  obtain ⟨-, clean⟩ := commands unsetPlace _ rfl free (Session.start ⟨0, 0⟩).machine
  exact ⟨rfl, free, e, after, failed, cause, clean 3 e after failed⟩

end TurtleLogo
