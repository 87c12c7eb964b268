import TurtleLogo.Proofs.Evaluate.Backtrace

/-!
Scope. Parameters are looked up in all calls in progress, so a procedure may refer to the parameters
of its callers. A program is well scoped if it does not: each reference lies directly in the body of
a procedure that declares the parameter. A run of such a program finds every parameter in the
innermost frame, which is the frame of the call that the reference belongs to; so it never misses a
parameter, and it is the run of an evaluator that looks nowhere else.
-/
namespace TurtleLogo
open Text

def Environment.ownParam? (e : Environment) (name : Name) : Option Float :=
  e.frames.head?.bind fun f => f.params.get? name

/-- No procedure refers to parameters other than its own, and there are no references outside. -/
structure Program.WellScoped (p : Program) : Prop where
  outside (pos : Position) (name : Name) : .expr (.param pos name) ∉ nodesOf p.statements
  body (q : Procedure) (defined : q ∈ p.procedures) (pos : Position) (name : Name) :
    .expr (.param pos name) ∈ nodesOf q.body → name ∈ q.params

namespace Task
variable (look : Environment → Name → Option Float)

def scriptBy : (t : Task) → Script t.Result
  | expr (.param pos name) =>
    .step pos (.inspect fun env => .found (look env name) (.undefinedParameter name) pos)
  | t => t.script

def runBy : Nat → Context → (t : Task) → Machine → Outcome t.Result
  | 0, _, _, _ => .outOfFuel
  | n + 1, ctx, t, m => (t.scriptBy look).exec ctx (fun s => runBy n ctx s) m

theorem scriptBy_param (t : Task) : t.scriptBy Environment.param? = t.script := by
  cases t with
  | expr e => cases e <;> rfl
  | _ => rfl

theorem runBy_param (n : Nat) (ctx : Context) (t : Task) (m : Machine) :
    t.runBy Environment.param? n ctx m = t.run n ctx m := by
  induction n generalizing t m with
  | zero => rw [runBy, run_zero]
  | succ n ih =>
    have same : (fun s => runBy Environment.param? n ctx s) = fun s => s.run n ctx := by
      funext s x
      exact ih s x
    rw [runBy, run_succ, scriptBy_param, same]

end Task

def Session.evaluateBy (look : Environment → Name → Option Float) (fuel : Nat) (limits : Limits)
    (cancelledFrom : Option Nat) (s : Session) (p : Program) : Outcome Signal :=
  Task.runBy look fuel ⟨limits, cancelledFrom, p.source⟩ (.statements p.statements) s.machine

/-- A task that the run of a program gets to in the body of a procedure that was called with the
    values, and no later call is in progress. -/
def Session.InCall (fuel : Nat) (limits : Limits) (cancelledFrom : Option Nat) (s : Session)
    (p : Program) (q : Procedure) (values : List Float) (k : Nat) (t : Task) (x : Machine) : Prop :=
  ∃ pos name args j z y, s.Reaches fuel limits cancelledFrom p (j + 2) (.call pos name args) z ∧
    z.env.procedure? name = some q ∧ args.length = q.params.length ∧
    Task.run (j + 1) ⟨limits, cancelledFrom, p.source⟩ (.arguments args) z = .done values y ∧
    (Task.statements q.body).Reaches ⟨limits, cancelledFrom, p.source⟩ j
      (y.called q (Evaluate.bindParams q.params values) pos) k t x ∧
    x.env.frames = ⟨q.name, Evaluate.bindParams q.params values⟩ :: y.env.frames

namespace Program
variable {p : Program} {r : Region} {m : Machine}

theorem WellScoped.declared {pos : Position} {name : Name} (wellScoped : p.WellScoped)
    (reference : .expr (.param pos name) ∈ p.ground.nodesIn r)
    (real : ∀ q, r = some q → q ∈ p.procedures) : name ∈ r.params := by
  cases r with
  | none => exact absurd reference (wellScoped.outside pos name)
  | some q => exact wellScoped.body q (real q rfl) pos name reference

theorem Inside.defined {calls : List CallFrame} {frames : List Frame}
    (inside : p.Inside r calls frames) : ∀ q, r = some q → q ∈ p.procedures := by
  intro q within
  exact (inside.callsFrom within).1

theorem WellScoped.finds {pos : Position} {name : Name} (wellScoped : p.WellScoped)
    (reference : .expr (.param pos name) ∈ p.ground.nodesIn r)
    (holds : p.ground.terrain.Holds r m) :
    ∃ value, m.env.ownParam? name = some value ∧ m.env.param? name = some value := by
  have inside : p.Inside r m.calls.frames m.env.frames := holds.stack
  have declared := wellScoped.declared reference inside.defined
  obtain ⟨q, values, rest, value, -, -, -, frames, bound⟩ := inside.innermost declared
  refine ⟨value, ?_, ?_⟩
  · simp [Environment.ownParam?, frames, bound]
  · simp [Environment.param?, frames, bound]

/-- The two evaluators do the same with one unit of fuel. -/
theorem WellScoped.exec_scriptBy (wellScoped : p.WellScoped) {ctx : Context}
    {run : (t : Task) → Machine → Outcome t.Result} {t : Task} (task : p.ground.terrain.task r t)
    (holds : p.ground.terrain.Holds r m) :
    (t.scriptBy Environment.ownParam?).exec ctx run m = t.script.exec ctx run m := by
  cases t with
  | expr e =>
    cases e with
    | param pos name =>
      obtain ⟨here, -⟩ := List.cons_subset.mp task
      obtain ⟨value, own, found⟩ := wellScoped.finds here holds
      simp only [Task.scriptBy, Task.script, Expr.script, Script.exec]
      rcases Evaluate.step_cases ctx pos m with taken | ⟨cause, refused⟩
      · have same : m.tick.env = m.env := rfl
        simp only [Expr.pos, taken, Outcome.bind, same, own, found]
      · simp only [Expr.pos, refused, Evaluate.bind_fail]
    | _ => rfl
  | _ => rfl

theorem WellScoped.runBy_own (wellScoped : p.WellScoped) {ctx : Context} {n : Nat} {t : Task}
    (task : p.ground.terrain.task r t) (holds : p.ground.terrain.Holds r m) :
    t.runBy Environment.ownParam? n ctx m = t.run n ctx m := by
  induction n generalizing r t m with
  | zero => rw [Task.runBy, Task.run_zero]
  | succ n ih =>
    rw [Task.runBy, Task.run_succ, wellScoped.exec_scriptBy task holds]
    apply Terrain.exec_of_agree (fun _ _ _ ends => same_frames_is_law.run ends)
      (p.ground.terrain_sound.run ctx n) _ (p.ground.terrain_sound r t task) holds
    intro r' s x inner entered
    exact ih inner entered

theorem WellScoped.in_call (wellScoped : p.WellScoped) {random : Random.Stream} {fuel k : Nat}
    {limits : Limits} {cancelledFrom : Option Nat} {pos : Position} {name : Name} {x : Machine}
    (reaches : (Session.start random).Reaches fuel limits cancelledFrom p k
      (.expr (.param pos name)) x) :
    ∃ q ∈ p.procedures, .expr (.param pos name) ∈ nodesOf q.body ∧ name ∈ q.params ∧
      ∃ values value, (Session.start random).InCall fuel limits cancelledFrom p q values k
          (.expr (.param pos name)) x ∧
        (Evaluate.bindParams q.params values).get? name = some value ∧
        x.env.param? name = some value := by
  have task := p.terrain_task
  have start := p.terrain_start random
  have sound := p.ground.terrain_sound
  rcases Task.Reaches.invocation reaches with
    level | ⟨q, params, callPos, j, y, invoked, served, innermost⟩
  · obtain ⟨nodes, -⟩ := sound.reaches_level reaches level task start
    exact absurd (nodes List.mem_cons_self) (wellScoped.outside pos name)
  · obtain ⟨r, ⟨known, site, bound, fits, rfl⟩, holds⟩ := sound.reaches invoked task start
    obtain ⟨may, -⟩ := Ground.invoke_keeps known site fits
    -- from the body on the run is in the region of the procedure
    obtain ⟨nodes, -⟩ := sound.reaches_level served innermost may.2.1 (may.called holds)
    have reference : .expr (.param pos name) ∈ nodesOf q.body := nodes List.mem_cons_self
    have declared := wellScoped.body q known.1 pos name reference
    obtain ⟨value, found⟩ := bindParams_get declared fits
    refine ⟨q, known.1, reference, declared, ?_⟩
    rcases invoked.invoker rfl with
      no_params | ⟨callee, args, values, z, called, same, count, result, eq⟩
    · rw [no_params] at found
      simp [Table.get?] at found
    · rw [eq] at found innermost served
      refine ⟨values, value, ?_, found, ?_⟩
      · exact ⟨callPos, callee, args, j, z, y, called, same, count, result, served, innermost⟩
      · simp [Environment.param?, innermost, found]

end Program

/-- A well-scoped program in a fresh session, under all limits: no run misses a parameter; every
    reference that a run gets to finds an argument of the call to which it belongs; and an evaluator
    that looks for parameters in the innermost frame alone has the same runs. -/
theorem well_scoped_references_are_local {p : Program} (wellScoped : p.WellScoped)
    (random : Random.Stream) (limits : Limits) (cancelledFrom : Option Nat) :
    (∀ fuel e m, (Session.start random).evaluate fuel limits cancelledFrom p = .failed e m →
      ∀ name, e.cause ≠ .undefinedParameter name) ∧
    (∀ fuel k pos name x, (Session.start random).Reaches fuel limits cancelledFrom p k
        (.expr (.param pos name)) x →
      ∃ q ∈ p.procedures, .expr (.param pos name) ∈ nodesOf q.body ∧ name ∈ q.params ∧
        ∃ values value, (Session.start random).InCall fuel limits cancelledFrom p q values k
            (.expr (.param pos name)) x ∧
          (Evaluate.bindParams q.params values).get? name = some value ∧
          x.env.param? name = some value) ∧
    ∀ fuel, (Session.start random).evaluateBy Environment.ownParam? fuel limits cancelledFrom p =
        (Session.start random).evaluate fuel limits cancelledFrom p ∧
      (Session.start random).evaluateBy Environment.param? fuel limits cancelledFrom p =
        (Session.start random).evaluate fuel limits cancelledFrom p := by
  refine ⟨?_, ?_, ?_⟩
  · intro fuel e m failed name missing
    obtain ⟨r, x, cause, pos, holds, ⟨-, undeclared⟩, rfl⟩ := p.raised failed
    obtain ⟨reference, absent⟩ := undeclared name missing
    have inside : p.Inside r x.calls.frames x.env.frames := holds.stack
    exact absent (wellScoped.declared reference inside.defined)
  · intro fuel k pos name x reaches
    exact wellScoped.in_call reaches
  · intro fuel
    constructor
    · exact wellScoped.runBy_own p.terrain_task (p.terrain_start random)
    · exact Task.runBy_param fuel _ _ _

def sameNames : Program where
  statements := [
    .define ⟨0, 1, 1⟩ [105] ⟨3, 1, 4⟩ [[120]] [.output ⟨8, 1, 9⟩ (.param ⟨15, 1, 16⟩ [120])],
    .define ⟨22, 1, 23⟩ [102] ⟨25, 1, 26⟩ [[120]] [.move ⟨30, 1, 31⟩ true
      (.call ⟨33, 1, 34⟩ [105] [.param ⟨35, 1, 36⟩ [120]])],
    .call ⟨42, 1, 43⟩ [102] [.number ⟨44, 1, 45⟩ 2]]
  source := utf8 "to i :x output :x end to f :x fd i :x end f 2"

theorem sameNames_wellScoped : sameNames.WellScoped where
  outside pos name := by simp [sameNames, nodesOf, Stmt.inner, argumentNodes, Expr.inner]
  body q defined pos name reference := by
    have either : q = ⟨[105], [[120]], [.output ⟨8, 1, 9⟩ (.param ⟨15, 1, 16⟩ [120])], ⟨0, 1, 1⟩⟩ ∨
        q = ⟨[102], [[120]], [.move ⟨30, 1, 31⟩ true
          (.call ⟨33, 1, 34⟩ [105] [.param ⟨35, 1, 36⟩ [120]])], ⟨22, 1, 23⟩⟩ := by
      simpa [sameNames, Program.procedures, proceduresOf, Stmt.procedures] using defined
    rcases either with rfl | rfl
    · simp [nodesOf, Stmt.inner, Expr.nodes, Expr.inner] at reference
      simp [reference]
    · simp [nodesOf, Stmt.inner, argumentNodes, Expr.nodes, Expr.inner] at reference
      simp [reference]

theorem sameNames_reaches : ∃ k x, (Session.start ⟨0, 0⟩).Reaches 30 .none none sameNames k
    (.expr (.param ⟨15, 1, 16⟩ [120])) x ∧ x.env.frames.length = 2 :=
  ⟨_, _, .later (.stepped rfl (.behind rfl (.here _ _ _))) (.later (.stepped rfl (.behind rfl
    (.here _ _ _))) (.later (.stepped rfl (.here _ _ _)) (.later (.here _ _ _)
    (.later (.inspected (.behind rfl (.here _ _ _))) (.later (.body rfl)
    (.later (.stepped rfl (.here _ _ _)) (.later (.here _ _ _) (.later (.here _ _ _)
    (.later (.stepped rfl (.here _ _ _)) (.later (.inspected (.behind rfl (.here _ _ _)))
    (.later (.body rfl) (.later (.stepped rfl (.here _ _ _)) (.later (.here _ _ _)
    (.here _ _ _)))))))))))))), rfl⟩

/-- The inner reference finds the argument of the inner call; and the program fails for want of
    steps, but not of a parameter. -/
theorem well_scoped_references_are_local_of_same_names :
    (∃ e m, (Session.start ⟨0, 0⟩).evaluate 30 ⟨2, 0⟩ none sameNames = .failed e m ∧
      ∀ name, e.cause ≠ .undefinedParameter name) ∧
    (∃ k x q values value, x.env.frames.length = 2 ∧
      (Session.start ⟨0, 0⟩).InCall 30 .none none sameNames q values k
        (.expr (.param ⟨15, 1, 16⟩ [120])) x ∧
      (Evaluate.bindParams q.params values).get? [120] = some value ∧
      x.env.param? [120] = some value) ∧
    (Session.start ⟨0, 0⟩).evaluateBy Environment.ownParam? 30 .none none sameNames =
      (Session.start ⟨0, 0⟩).evaluate 30 .none none sameNames := by
  obtain ⟨-, finds, agrees⟩ :=
    well_scoped_references_are_local sameNames_wellScoped ⟨0, 0⟩ .none none
  refine ⟨?_, ?_, (agrees 30).1⟩
  · obtain ⟨e, m, failed⟩ : ∃ e m,
        (Session.start ⟨0, 0⟩).evaluate 30 ⟨2, 0⟩ none sameNames = .failed e m := ⟨_, _, rfl⟩
    obtain ⟨never, -⟩ := well_scoped_references_are_local sameNames_wellScoped ⟨0, 0⟩ ⟨2, 0⟩ none
    exact ⟨e, m, failed, never 30 e m failed⟩
  · obtain ⟨k, x, reaches, depth⟩ := sameNames_reaches
    obtain ⟨q, -, -, -, values, value, call, found, param⟩ := finds 30 k _ _ x reaches
    exact ⟨k, x, q, values, value, depth, call, found, param⟩

end TurtleLogo
