import TurtleLogo.Proofs.Evaluate.Counterpart
import TurtleLogo.Proofs.Evaluate.Policy
import TurtleLogo.Proofs.Evaluate.Quota
import TurtleLogo.Proofs.Program.Nodes

/-!
Loops that name a procedure. Such a loop looks its procedure up once and runs it in every round,
where a loop over a block with a call looks it up again each time. If the program defines the name
once the two find the same procedure, so a run without limits that succeeds can be followed, with
more steps and fuel, when every named loop is written with a block.
-/
namespace TurtleLogo
open Text

mutual

/-- A loop that names a procedure becomes one over a block with a call without arguments. -/
def Stmt.withBlocks : Stmt → Stmt
  | .loopCall pos count target => .loop pos count [.call pos target []]
  | .define pos name namePos params body => .define pos name namePos params (withBlocksAll body)
  | .loop pos count body => .loop pos count (withBlocksAll body)
  | .test pos left op right body => .test pos left op right (withBlocksAll body)
  | s => s

def withBlocksAll : List Stmt → List Stmt
  | [] => []
  | s :: rest => s.withBlocks :: withBlocksAll rest

end

mutual

def Stmt.loopTargets : Stmt → List Name
  | .loopCall _ _ target => [target]
  | .define _ _ _ _ body | .loop _ _ body | .test _ _ _ _ body => loopTargetsOf body
  | _ => []

def loopTargetsOf : List Stmt → List Name
  | [] => []
  | s :: rest => s.loopTargets ++ loopTargetsOf rest

end

def Procedure.withBlocks (q : Procedure) : Procedure :=
  ⟨q.name, q.params, withBlocksAll q.body, q.pos⟩

def Environment.withBlocks (e : Environment) : Environment :=
  { e with procedures := e.procedures.map fun entry => (entry.1, entry.2.withBlocks) }

theorem Environment.withBlocks_procedure (e : Environment) (name : Name) :
    e.withBlocks.procedure? name = (e.procedure? name).map Procedure.withBlocks :=
  e.procedures.map_get Procedure.withBlocks name

theorem Environment.withBlocks_define (e : Environment) (q : Procedure) :
    e.withBlocks.define q.withBlocks = (e.define q).withBlocks := by
  have table := e.procedures.map_set Procedure.withBlocks q.name q
  simp only [Environment.withBlocks, Environment.define]
  rw [table]
  rfl

def Machine.KeepsProcedures (m after : Machine) : Prop :=
  ∀ name, (m.env.procedure? name).isSome → (after.env.procedure? name).isSome

theorem procedures_stay_is_law : Law Machine.KeepsProcedures where
  refl _ _ known := known
  trans first second name known := second name (first name known)
  tick _ _ known := known
  change c m name known := by
    cases c with
    | define q =>
      have found : (m.env.procedures.set q.name q).get? name =
          if name = q.name then some q else m.env.procedure? name := Table.get_set _ _ _ _
      change ((m.env.procedures.set q.name q).get? name).isSome
      rw [found]
      split
      · rfl
      · exact known
    | _ => exact known
  random _ _ _ known := known
  call _ _ _ inside := inside

def Context.free (source : Bytes) : Context := ⟨.none, none, source⟩

theorem Evaluate.step_free {α : Type} (source : Bytes) (pos : Position) (m : Machine)
    (f : Unit → Machine → Outcome α) : (step (.free source) pos m).bind f = f () m.tick :=
  rfl

theorem Evaluate.block_of_call (source : Bytes) (pos : Position) (n : Nat) {name : Name}
    {m : Machine} {q : Procedure} (known : m.env.procedure? name = some q) (empty : q.params = []) :
    statements (n + 4) (.free source) [.call pos name []] m =
      (invoke (n + 1) (.free source) q [] pos m.tick).bind fun _ m => .done .finished m := by
  have found : m.tick.env.procedure? name = some q := known
  have arity : q.arity = 0 := congrArg List.length empty
  have called : call (n + 2) (.free source) pos name [] m.tick =
      invoke (n + 1) (.free source) q [] pos m.tick := by
    simp only [call, procedure, found, arity, Outcome.bind, List.length_nil, beq_self_eq_true,
      if_true, arguments, empty]
    rfl
  simp only [statements, step_free, statement, called]
  cases invoke (n + 1) (.free source) q [] pos m.tick <;> rfl

namespace Program

def withBlocks (p : Program) : Program := ⟨withBlocksAll p.statements, p.source⟩

structure Contains (p : Program) (procedures : List Procedure) (targets : List Name) : Prop where
  defines : procedures ⊆ p.procedures
  runs : targets ⊆ loopTargetsOf p.statements

def TargetsDefinedOnce (p : Program) : Prop :=
  ∀ name ∈ loopTargetsOf p.statements, (p.procedures.map Procedure.name).count name ≤ 1

abbrev ContainsAll (p : Program) (ss : List Stmt) : Prop :=
  p.Contains (proceduresOf ss) (loopTargetsOf ss)

def ownProcedures (p : Program) : Policy where
  task _ := True
  result _ _ := True
  procedure q := q ∈ p.procedures ∧ p.ContainsAll q.body
  frame _ := True
  failure _ _ := True

/-- The machine of the program with blocks, where the program itself has the other. -/
structure Matches (p : Program) (m m' : Machine) : Prop where
  known : p.ownProcedures.Holds m
  env : m'.env = m.env.withBlocks
  turtle : m'.turtle = m.turtle
  random : m'.random = m.random

def Follows (p : Program) {α : Type} (o o' : Outcome α) : Prop :=
  ∀ v after, o = .done v after → ∃ after', o' = .done v after' ∧ p.Matches after after'

section
variable {p : Program} {ss : List Stmt} {s : Stmt} {m m' : Machine} {α β : Type}

theorem Contains.cons (contains : p.ContainsAll (s :: ss)) :
    p.Contains s.procedures s.loopTargets ∧ p.ContainsAll ss := by
  obtain ⟨defines, runs⟩ := contains
  rw [proceduresOf] at defines
  rw [loopTargetsOf] at runs
  obtain ⟨first, others⟩ := List.append_subset.mp defines
  obtain ⟨target, targets⟩ := List.append_subset.mp runs
  exact ⟨⟨first, target⟩, ⟨others, targets⟩⟩

theorem TargetsDefinedOnce.unique {q other : Procedure} (once : p.TargetsDefinedOnce)
    (target : q.name ∈ loopTargetsOf p.statements) (own : q ∈ p.procedures)
    (ownOther : other ∈ p.procedures) (named : other.name = q.name) : other = q := by
  have count := once q.name target
  obtain ⟨front, back, procedures⟩ := List.append_of_mem own
  rw [procedures, List.map_append, List.map_cons, List.count_append, List.count_cons_self] at count
  have absent : ∀ part : List Procedure, (part.map Procedure.name).count q.name = 0 →
      other ∉ part := by
    intro part zero member
    exact List.count_eq_zero.mp zero (named ▸ List.mem_map_of_mem member)
  rw [procedures, List.mem_append, List.mem_cons] at ownOther
  rcases ownOther with before | same | behind
  · exact absurd before (absent front (by omega))
  · exact same
  · exact absurd behind (absent back (by omega))

namespace Matches
variable (same : p.Matches m m')
include same

theorem procedure {name : Name} {q : Procedure} (known : m.env.procedure? name = some q) :
    m'.env.procedure? name = some q.withBlocks := by
  rw [same.env, Environment.withBlocks_procedure, known]
  rfl

theorem tick : p.Matches m.tick m'.tick := ⟨same.known.tick, same.env, same.turtle, same.random⟩

theorem tick_more : p.Matches m m'.tick := ⟨same.known, same.env, same.turtle, same.random⟩

theorem report (e e' : Event) : p.Matches (m.report e) (m'.report e') :=
  ⟨same.known.change (c := .report e) trivial, same.env, same.turtle, same.random⟩

theorem define {q : Procedure} (own : q ∈ p.procedures ∧ p.ContainsAll q.body) :
    p.Matches (m.define q) (m'.define q.withBlocks) := by
  refine ⟨same.known.change (c := .define q) own, ?_, same.turtle, same.random⟩
  change m'.env.define q.withBlocks = (m.env.define q).withBlocks
  rw [same.env, Environment.withBlocks_define]

theorem setVariable (name : Name) (value : Float) :
    p.Matches (m.setVariable name value) (m'.setVariable name value) := by
  refine ⟨same.known.change (c := .setVariable name value) trivial, ?_, same.turtle, same.random⟩
  change m'.env.setVariable name value = (m.env.setVariable name value).withBlocks
  rw [same.env]
  rfl

theorem onTurtle (f : Turtle → Turtle) : p.Matches (m.onTurtle f) (m'.onTurtle f) :=
  ⟨⟨same.known.env, same.known.frames⟩, same.env, congrArg f same.turtle, same.random⟩

theorem called (q : Procedure) (params : Table Float) (pos pos' : Position) :
    p.Matches (m.called q params pos) (m'.called q.withBlocks params pos') := by
  refine ⟨same.known.called params trivial, ?_, same.turtle, same.random⟩
  change m'.env.enter q.name params = (m.env.enter q.name params).withBlocks
  rw [same.env]
  rfl

theorem leave : p.Matches m.leave m'.leave := by
  refine ⟨same.known.leave, ?_, same.turtle, same.random⟩
  change m'.env.leave = m.env.leave.withBlocks
  rw [same.env]
  rfl

end Matches

namespace Follows

theorem done (v : α) (same : p.Matches m m') : p.Follows (.done v m) (.done v m') := by
  intro w after ended
  obtain ⟨rfl, rfl⟩ := Outcome.done.inj ended
  exact ⟨m', rfl, same⟩

theorem fail {ctx : Context} {cause : Cause} {pos : Position} {o' : Outcome α} :
    p.Follows (Evaluate.fail ctx cause pos m) o' := by
  intro v after ended
  cases ended

theorem outOfFuel {o' : Outcome α} : p.Follows .outOfFuel o' := by
  intro v after ended
  cases ended

theorem bind {o o' : Outcome α} {f g : α → Machine → Outcome β} (first : p.Follows o o')
    (second : ∀ v mid mid', o = .done v mid → p.Matches mid mid' →
      p.Follows (f v mid) (g v mid')) : p.Follows (o.bind f) (o'.bind g) := by
  intro w after ended
  cases result : o with
  | done v mid =>
    rw [result] at ended
    obtain ⟨mid', result', same⟩ := first v mid result
    rw [result']
    exact second v mid mid' result same w after ended
  | failed e mid =>
    rw [result] at ended
    cases ended
  | outOfFuel =>
    rw [result] at ended
    cases ended

theorem map {o o' : Outcome α} (f : α → β) (follows : p.Follows o o') :
    p.Follows (o.map f) (o'.map f) := by
  rw [Outcome.map_eq_bind, Outcome.map_eq_bind]
  exact follows.bind fun v _ _ _ same => done (f v) same

theorem leave {o o' : Outcome α} (follows : p.Follows o o') :
    p.Follows (o.onMachine Machine.leave) (o'.onMachine Machine.leave) := by
  intro v after ended
  cases result : o with
  | done w inside =>
    rw [result] at ended
    obtain ⟨rfl, rfl⟩ := Outcome.done.inj ended
    obtain ⟨inside', result', same⟩ := follows w inside result
    rw [result']
    exact ⟨_, rfl, same.leave⟩
  | failed e inside =>
    rw [result] at ended
    cases ended
  | outOfFuel =>
    rw [result] at ended
    cases ended

theorem procedure {ctx : Context} {name : Name} {pos : Position}
    {f g : Procedure → Machine → Outcome α} (same : p.Matches m m')
    (found : ∀ q, m.env.procedure? name = some q → q.name = name → q ∈ p.procedures →
      p.ContainsAll q.body → p.Follows (f q m) (g q.withBlocks m')) :
    p.Follows ((Evaluate.procedure ctx name pos m).bind f)
      ((Evaluate.procedure ctx name pos m').bind g) := by
  cases known : m.env.procedure? name with
  | none =>
    simp only [Evaluate.procedure, known, Evaluate.bind_fail]
    exact fail
  | some q =>
    obtain ⟨named, own, contains⟩ := same.known.env name q known
    simp only [Evaluate.procedure, known, same.procedure known, Outcome.bind]
    exact found q known named own contains

theorem drawn (same : p.Matches m m') (limit : Float) :
    p.Follows (m.drawn limit) (m'.drawn limit) := by
  unfold Machine.drawn Machine.draw
  rw [same.random]
  generalize m.random.draw = pair
  exact done _ ⟨⟨same.known.env, same.known.frames⟩, same.env, same.turtle, rfl⟩

end Follows
end

structure FollowedBy (p : Program) (source : Bytes) (n : Nat) : Prop where
  statements {k : Nat} {ss : List Stmt} {m m' : Machine} (fuel : 4 * n < k)
    (contains : p.ContainsAll ss) (same : p.Matches m m') :
    p.Follows (Evaluate.statements n (.free source) ss m)
      (Evaluate.statements k (.free source) (withBlocksAll ss) m')
  statement {k : Nat} {s : Stmt} {m m' : Machine} (fuel : 4 * n < k)
    (contains : p.Contains s.procedures s.loopTargets) (same : p.Matches m m') :
    p.Follows (Evaluate.statement n (.free source) s m)
      (Evaluate.statement k (.free source) s.withBlocks m')
  rounds {k : Nat} {pos : Position} {body : List Stmt} {total : Float} {i : Nat} {m m' : Machine}
    (fuel : 4 * n < k) (contains : p.ContainsAll body) (same : p.Matches m m') :
    p.Follows (Evaluate.rounds n (.free source) pos body total i m)
      (Evaluate.rounds k (.free source) pos (withBlocksAll body) total i m')
  callRounds {k : Nat} {pos : Position} {q : Procedure} {total : Float} {i : Nat} {m m' : Machine}
    (fuel : 4 * n < k) (empty : q.params = []) (target : q.name ∈ loopTargetsOf p.statements)
    (known : m.env.procedure? q.name = some q) (same : p.Matches m m') :
    p.Follows (Evaluate.callRounds n (.free source) pos q total i m)
      (Evaluate.rounds k (.free source) pos [.call pos q.name []] total i m')
  operand {k : Nat} {what : Operand} {e : Expr} {m m' : Machine} (fuel : 4 * n < k)
    (same : p.Matches m m') :
    p.Follows (Evaluate.operand n (.free source) what e m)
      (Evaluate.operand k (.free source) what e m')
  expr {k : Nat} {e : Expr} {m m' : Machine} (fuel : 4 * n < k) (same : p.Matches m m') :
    p.Follows (Evaluate.expr n (.free source) e m) (Evaluate.expr k (.free source) e m')
  arguments {k : Nat} {es : List Expr} {m m' : Machine} (fuel : 4 * n < k)
    (same : p.Matches m m') :
    p.Follows (Evaluate.arguments n (.free source) es m)
      (Evaluate.arguments k (.free source) es m')
  call {k : Nat} {pos : Position} {name : Name} {args : List Expr} {m m' : Machine}
    (fuel : 4 * n < k) (same : p.Matches m m') :
    p.Follows (Evaluate.call n (.free source) pos name args m)
      (Evaluate.call k (.free source) pos name args m')
  invoke {k : Nat} {q : Procedure} {params : Table Float} {pos : Position} {m m' : Machine}
    (fuel : 4 * n < k) (contains : p.ContainsAll q.body) (same : p.Matches m m') :
    p.Follows (Evaluate.invoke n (.free source) q params pos m)
      (Evaluate.invoke k (.free source) q.withBlocks params pos m')

section
variable {p : Program} {source : Bytes} {n k : Nat} {m m' : Machine}
  (ih : p.FollowedBy source n) (fuel : 4 * n < k + 3) (same : p.Matches m m')
include ih fuel same

theorem statements_followed {ss : List Stmt} (contains : p.ContainsAll ss) :
    p.Follows (Evaluate.statements (n + 1) (.free source) ss m)
      (Evaluate.statements (k + 4) (.free source) (withBlocksAll ss) m') := by
  cases ss with
  | nil =>
    simp only [withBlocksAll, Evaluate.statements]
    exact .done _ same
  | cons s rest =>
    obtain ⟨first, others⟩ := contains.cons
    simp only [withBlocksAll, Evaluate.statements, Evaluate.step_free]
    refine (ih.statement fuel first same.tick).bind fun signal mid mid' _ later => ?_
    cases signal with
    | finished => exact ih.statements fuel others later
    | stop => exact .done _ later
    | output value => exact .done _ later

theorem statement_followed {s : Stmt} (contains : p.Contains s.procedures s.loopTargets) :
    p.Follows (Evaluate.statement (n + 1) (.free source) s m)
      (Evaluate.statement (k + 4) (.free source) s.withBlocks m') := by
  cases s with
  | define pos name namePos params body =>
    obtain ⟨own, defines⟩ := List.cons_subset.mp contains.defines
    simp only [Stmt.withBlocks, Evaluate.statement]
    exact .done _ (same.define ⟨own, defines, contains.runs⟩)
  | make pos name value =>
    simp only [Stmt.withBlocks, Evaluate.statement]
    exact (ih.expr fuel same).bind fun v mid mid' _ later => .done _ (later.setVariable name v)
  | loop pos count body =>
    simp only [Stmt.withBlocks, Evaluate.statement]
    exact (ih.expr fuel same).bind fun total mid mid' _ later => ih.rounds fuel contains later
  | loopCall pos count target =>
    have runs : target ∈ loopTargetsOf p.statements := contains.runs List.mem_cons_self
    simp only [Stmt.withBlocks, Evaluate.statement]
    refine (ih.expr fuel same).bind fun total mid mid' _ later => ?_
    cases known : mid.env.procedure? target with
    | none =>
      simp only [Evaluate.procedure, known, Evaluate.bind_fail]
      exact .fail
    | some q =>
      obtain ⟨rfl, -⟩ := later.known.env target q known
      simp only [Evaluate.procedure, known, Outcome.bind]
      split
      · rename_i admitted
        have empty : q.params = [] := by simpa [Procedure.arity] using admitted
        exact ih.callRounds fuel empty runs known later
      · exact .fail
  | pen pos down =>
    simp only [Stmt.withBlocks, Evaluate.statement]
    exact .done _ (same.onTurtle _)
  | move pos forward distance =>
    simp only [Stmt.withBlocks, Evaluate.statement]
    exact (ih.operand fuel same).bind fun d mid mid' _ later => .done _ (later.onTurtle _)
  | turn pos left angle =>
    simp only [Stmt.withBlocks, Evaluate.statement]
    exact (ih.operand fuel same).bind fun a mid mid' _ later => .done _ (later.onTurtle _)
  | home pos =>
    simp only [Stmt.withBlocks, Evaluate.statement]
    exact .done _ (same.onTurtle _)
  | setXY pos x y =>
    simp only [Stmt.withBlocks, Evaluate.statement]
    refine (ih.operand fuel same).bind fun x mid mid' _ later => ?_
    exact (ih.operand fuel later).bind fun y mid mid' _ last => .done _ (last.onTurtle _)
  | setHeading pos angle =>
    simp only [Stmt.withBlocks, Evaluate.statement]
    exact (ih.operand fuel same).bind fun a mid mid' _ later => .done _ (later.onTurtle _)
  | call pos name args =>
    simp only [Stmt.withBlocks, Evaluate.statement]
    exact (ih.call fuel same).bind fun _ mid mid' _ later => .done _ later
  | test pos left op right body =>
    simp only [Stmt.withBlocks, Evaluate.statement]
    refine (ih.expr fuel same).bind fun l mid mid' _ later => ?_
    refine (ih.expr fuel later).bind fun r mid mid' _ last => ?_
    split
    · exact ih.statements fuel contains last
    · exact .done _ last
  | stop pos =>
    simp only [Stmt.withBlocks, Evaluate.statement]
    exact .done _ same
  | output pos value =>
    simp only [Stmt.withBlocks, Evaluate.statement]
    exact (ih.expr fuel same).bind fun v mid mid' _ later => .done _ later

theorem rounds_followed {pos : Position} {body : List Stmt} {total : Float} {i : Nat}
    (contains : p.ContainsAll body) :
    p.Follows (Evaluate.rounds (n + 1) (.free source) pos body total i m)
      (Evaluate.rounds (k + 4) (.free source) pos (withBlocksAll body) total i m') := by
  rw [Evaluate.rounds, Evaluate.rounds]
  split
  · rw [Evaluate.step_free, Evaluate.step_free]
    refine (ih.statements fuel contains same.tick).bind fun signal mid mid' _ later => ?_
    cases signal with
    | finished => exact ih.rounds fuel contains later
    | stop => exact .done _ later
    | output value => exact .done _ later
  · exact .done _ same

theorem operand_followed {what : Operand} {e : Expr} :
    p.Follows (Evaluate.operand (n + 1) (.free source) what e m)
      (Evaluate.operand (k + 4) (.free source) what e m') := by
  simp only [Evaluate.operand, Evaluate.finite]
  refine (ih.expr fuel same).bind fun v mid mid' _ later => ?_
  split
  · exact .done _ later
  · exact .fail

theorem expr_followed {e : Expr} :
    p.Follows (Evaluate.expr (n + 1) (.free source) e m)
      (Evaluate.expr (k + 4) (.free source) e m') := by
  rw [Evaluate.expr, Evaluate.expr, Evaluate.step_free, Evaluate.step_free]
  have ticked := same.tick
  cases e with
  | number pos value => exact .done _ ticked
  | param pos name =>
    have found : m'.tick.env.param? name = m.tick.env.param? name := by
      rw [ticked.env]
      rfl
    simp only [found]
    cases m.tick.env.param? name with
    | some value => exact .done _ ticked
    | none => exact .fail
  | var pos name =>
    have found : m'.tick.env.global? name = m.tick.env.global? name := by
      rw [ticked.env]
      rfl
    simp only [found]
    cases m.tick.env.global? name with
    | some value => exact .done _ ticked
    | none => exact .fail
  | group pos inner => exact ih.expr fuel ticked
  | negate pos inner => exact (ih.expr fuel ticked).map _
  | random pos limit =>
    exact (ih.expr fuel ticked).bind fun l mid mid' _ later => .drawn later l
  | binary op left right =>
    refine (ih.expr fuel ticked).bind fun l mid mid' _ later => ?_
    exact (ih.expr fuel later).map _
  | call pos name args =>
    refine (ih.call fuel ticked).bind fun result mid mid' _ later => ?_
    cases result with
    | some value => exact .done _ later
    | none => exact .fail

theorem arguments_followed {es : List Expr} :
    p.Follows (Evaluate.arguments (n + 1) (.free source) es m)
      (Evaluate.arguments (k + 4) (.free source) es m') := by
  cases es with
  | nil =>
    simp only [Evaluate.arguments]
    exact .done _ same
  | cons e rest =>
    simp only [Evaluate.arguments]
    refine (ih.expr fuel same).bind fun v mid mid' _ later => ?_
    exact (ih.arguments fuel later).map _

theorem call_followed {pos : Position} {name : Name} {args : List Expr} :
    p.Follows (Evaluate.call (n + 1) (.free source) pos name args m)
      (Evaluate.call (k + 4) (.free source) pos name args m') := by
  simp only [Evaluate.call]
  refine .procedure same fun q _ _ _ contains => ?_
  have arity : q.withBlocks.arity = q.arity := rfl
  rw [arity]
  split
  · refine (ih.arguments fuel same).bind fun values mid mid' _ later => ?_
    exact ih.invoke fuel contains later
  · exact .fail

theorem invoke_followed {q : Procedure} {params : Table Float} {pos : Position}
    (contains : p.ContainsAll q.body) :
    p.Follows (Evaluate.invoke (n + 1) (.free source) q params pos m)
      (Evaluate.invoke (k + 4) (.free source) q.withBlocks params pos m') := by
  have body := ih.statements fuel contains (same.called q params pos pos)
  simp only [Evaluate.invoke]
  refine body.leave.bind fun signal mid mid' _ later => ?_
  cases signal with
  | finished => exact .done _ later
  | stop => exact .done _ (later.report _ _)
  | output value => exact .done _ (later.report _ _)

end

/-- A round ends with the procedure of the loop still known. -/
theorem known_after_round {p : Program} {source : Bytes} {n : Nat} {m m' mid mid' : Machine}
    {q : Procedure} {pos : Position} {v : Option Float} (once : p.TargetsDefinedOnce)
    (target : q.name ∈ loopTargetsOf p.statements) (known : m.env.procedure? q.name = some q)
    (same : p.Matches m m') (later : p.Matches mid mid')
    (ended : Evaluate.invoke n (.free source) q [] pos m = .done v mid) :
    mid.env.procedure? q.name = some q := by
  have ends : ((Task.invoke q [] pos).run n (.free source) m).machine? = some mid := by
    simp only [Task.run, ended, Outcome.machine?]
  have stays := procedures_stay_is_law.run ends
  obtain ⟨other, found⟩ := Option.isSome_iff_exists.mp (stays q.name (known ▸ rfl))
  obtain ⟨named, own, -⟩ := later.known.env q.name other found
  obtain ⟨-, defined, -⟩ := same.known.env q.name q known
  rw [found, once.unique target defined own named]

theorem callRounds_followed {p : Program} {source : Bytes} {n k : Nat} {m m' : Machine}
    {pos : Position} {q : Procedure} {total : Float} {i : Nat} (ih : p.FollowedBy source n)
    (once : p.TargetsDefinedOnce) (fuel : 4 * n < k) (empty : q.params = [])
    (target : q.name ∈ loopTargetsOf p.statements) (known : m.env.procedure? q.name = some q)
    (same : p.Matches m m') :
    p.Follows (Evaluate.callRounds (n + 1) (.free source) pos q total i m)
      (Evaluate.rounds (k + 4) (.free source) pos [.call pos q.name []] total i m') := by
  obtain ⟨k, rfl⟩ : ∃ j, k = j + 1 := ⟨k - 1, by omega⟩
  rw [Evaluate.callRounds, Evaluate.rounds]
  split
  · obtain ⟨-, -, contains⟩ := same.known.env q.name q known
    have ticked : m.tick.env.procedure? q.name = some q := known
    have round := Evaluate.block_of_call source pos k (same.tick.procedure ticked) empty
    rw [Evaluate.step_free, Evaluate.step_free, round, Outcome.bind_assoc]
    refine (ih.invoke fuel contains same.tick.tick_more).bind fun _ mid mid' ended later => ?_
    have stays := known_after_round once target ticked same.tick later ended
    exact ih.callRounds (by omega) empty target stays later
  · exact .done _ same

theorem followed {p : Program} (once : p.TargetsDefinedOnce) (source : Bytes) (n : Nat) :
    p.FollowedBy source n := by
  induction n with
  | zero =>
    constructor <;> intros <;>
      simp only [Evaluate.statements, Evaluate.statement, Evaluate.rounds, Evaluate.callRounds,
        Evaluate.operand, Evaluate.expr, Evaluate.arguments, Evaluate.call, Evaluate.invoke] <;>
      exact .outOfFuel
  | succ n ih =>
    -- four units of fuel for one: a call in a block is four evaluators deep
    have more : ∀ {k}, 4 * (n + 1) < k → ∃ j, k = j + 4 ∧ 4 * n < j := by
      intro k fuel
      exact ⟨k - 4, by omega, by omega⟩
    constructor
    · intro k ss m m' fuel contains same
      obtain ⟨j, rfl, less⟩ := more fuel
      exact statements_followed ih (by omega) same contains
    · intro k s m m' fuel contains same
      obtain ⟨j, rfl, less⟩ := more fuel
      exact statement_followed ih (by omega) same contains
    · intro k pos body total i m m' fuel contains same
      obtain ⟨j, rfl, less⟩ := more fuel
      exact rounds_followed ih (by omega) same contains
    · intro k pos q total i m m' fuel empty target known same
      obtain ⟨j, rfl, less⟩ := more fuel
      exact callRounds_followed ih once less empty target known same
    · intro k what e m m' fuel same
      obtain ⟨j, rfl, less⟩ := more fuel
      exact operand_followed ih (by omega) same
    · intro k e m m' fuel same
      obtain ⟨j, rfl, less⟩ := more fuel
      exact expr_followed ih (by omega) same
    · intro k es m m' fuel same
      obtain ⟨j, rfl, less⟩ := more fuel
      exact arguments_followed ih (by omega) same
    · intro k pos name args m m' fuel same
      obtain ⟨j, rfl, less⟩ := more fuel
      exact call_followed ih (by omega) same
    · intro k q params pos m m' fuel contains same
      obtain ⟨j, rfl, less⟩ := more fuel
      exact invoke_followed ih (by omega) same contains

theorem matches_start (p : Program) (random : Random.Stream) :
    p.Matches (Session.start random).machine (Session.start random).machine :=
  ⟨⟨nofun, nofun⟩, rfl, rfl, rfl⟩

end Program

/-- If a program defines each name that a loop runs at most once, then a run of it without limits in
    a fresh session that succeeds has a counterpart with blocks: it ends in the same way, with the
    same turtle, variables and random numbers, and its procedures are the same but for the blocks.
    -/
theorem named_loops_run_blocks {p : Program} (once : p.TargetsDefinedOnce)
    {random : Random.Stream} {signal : Signal} {m : Machine}
    (succeeds : (Session.start random).Ends .none none p (.done signal m)) :
    ∃ m', (Session.start random).Ends .none none p.withBlocks (.done signal m') ∧
      m'.env = m.env.withBlocks ∧ m'.turtle = m.turtle ∧ m'.random = m.random := by
  obtain ⟨-, fuel, stable⟩ := succeeds
  have ended := stable fuel (Nat.le_refl _)
  have contains : p.ContainsAll p.statements := ⟨List.Subset.refl _, List.Subset.refl _⟩
  obtain ⟨m', followed, same⟩ := (Program.followed once p.source fuel).statements
    (Nat.lt_succ_self _) contains (p.matches_start random) signal m ended
  have again : (Session.start random).evaluate (4 * fuel + 1) .none none p.withBlocks =
      .done signal m' := followed
  have proper : (Session.start random).evaluate (4 * fuel + 1) .none none p.withBlocks ≠
      .outOfFuel := by
    rw [again]
    nofun
  have ends := Session.ends_of_evaluate proper
  rw [again] at ends
  exact ⟨m', ends, same.env, same.turtle, same.random⟩

def namedLoop : Program :=
  ⟨[.define .nowhere [102] .nowhere [] [.home .nowhere],
    .define .nowhere [103] .nowhere [] [.loopCall .nowhere (.number .nowhere 2) [102]],
    .call .nowhere [103] []], []⟩

def Outcome.drawn? {α : Type} : Outcome α → Option Nat
  | done _ m => some m.turtle.trail.length
  | _ => none

theorem namedLoop_draws :
    ((Session.start ⟨0, 0⟩).evaluate 16 .none none namedLoop).drawn? = some 2 := by
  decide +kernel

theorem named_loops_run_blocks_of_two_rounds :
    namedLoop.TargetsDefinedOnce ∧ ∃ signal m m',
      (Session.start ⟨0, 0⟩).Ends .none none namedLoop (.done signal m) ∧
      m.turtle.trail.length = 2 ∧
      (Session.start ⟨0, 0⟩).Ends .none none namedLoop.withBlocks (.done signal m') ∧
      m'.env = m.env.withBlocks ∧ m'.turtle = m.turtle ∧ m'.random = m.random := by
  have once : namedLoop.TargetsDefinedOnce := by
    intro name target
    obtain rfl := List.mem_singleton.mp target
    decide
  have draws := namedLoop_draws
  cases result : (Session.start ⟨0, 0⟩).evaluate 16 .none none namedLoop with
  | done signal m =>
    rw [result] at draws
    have proper : (Session.start ⟨0, 0⟩).evaluate 16 .none none namedLoop ≠ .outOfFuel := by
      rw [result]
      nofun
    have succeeds := Session.ends_of_evaluate proper
    rw [result] at succeeds
    obtain ⟨m', ends, same⟩ := named_loops_run_blocks once succeeds
    exact ⟨once, signal, m, m', succeeds, Option.some.inj draws, ends, same⟩
  | failed e m =>
    rw [result] at draws
    cases draws
  | outOfFuel =>
    rw [result] at draws
    cases draws

end TurtleLogo
