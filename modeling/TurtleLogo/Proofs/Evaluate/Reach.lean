import TurtleLogo.Proofs.Evaluate.Frames

/-!
The tasks that a run gets to. A script performs tasks, each on a machine, and a task reaches those
that its script performs and those that they reach. A failure anywhere in a run is the failure of
the run: no task on the way out changes the error. A task begins in the frame of the run, or in the
frame of an invocation whose body has reached it.
-/
namespace TurtleLogo
open Text

inductive Script.Performs {α : Type} (ctx : Context)
    (run : (t : Task) → Machine → Outcome t.Result) :
    Script α → Machine → Task → Machine → Prop where
  | here (t : Task) (next : t.Result → Script α) (m : Machine) :
      Performs ctx run (.perform t next) m t m
  | behind {s t : Task} {next : s.Result → Script α} {v : s.Result} {m mid x : Machine}
      (result : run s m = .done v mid) (later : Performs ctx run (next v) mid t x) :
      Performs ctx run (.perform s next) m t x
  | stepped {pos : Position} {next : Script α} {t : Task} {m mid x : Machine}
      (taken : Evaluate.step ctx pos m = .done () mid) (later : Performs ctx run next mid t x) :
      Performs ctx run (.step pos next) m t x
  | inspected {next : Environment → Script α} {t : Task} {m x : Machine}
      (later : Performs ctx run (next m.env) m t x) : Performs ctx run (.inspect next) m t x
  | changed {c : Change} {next : Script α} {t : Task} {m x : Machine}
      (later : Performs ctx run next (c.apply m) t x) : Performs ctx run (.change c next) m t x
  | drew {limit value : Float} {next : Float → Script α} {t : Task} {m mid x : Machine}
      (drawn : m.drawn limit = .done value mid)
      (later : Performs ctx run (next value) mid t x) : Performs ctx run (.draw limit next) m t x
  | body {p : Procedure} {params : Table Float} {pos : Position} {next : Signal → Script α}
      {m : Machine} (admitted : ctx.refuses m = false) :
      Performs ctx run (.enter p params pos next) m (.statements p.body) (m.called p params pos)
  | returned {p : Procedure} {params : Table Float} {pos : Position} {next : Signal → Script α}
      {signal : Signal} {t : Task} {m inside x : Machine} (admitted : ctx.refuses m = false)
      (result : run (.statements p.body) (m.called p params pos) = .done signal inside)
      (later : Performs ctx run (next signal) inside.leave t x) :
      Performs ctx run (.enter p params pos next) m t x

/-- A task reaches another one, which begins on a machine with the fuel that is left. -/
inductive Task.Reaches (ctx : Context) : Nat → Task → Machine → Nat → Task → Machine → Prop where
  | here (n : Nat) (t : Task) (m : Machine) : Reaches ctx n t m n t m
  | later {n k : Nat} {t s u : Task} {m mid x : Machine}
      (performs : t.script.Performs ctx (fun s => s.run n ctx) m s mid)
      (reaches : Reaches ctx n s mid k u x) : Reaches ctx (n + 1) t m k u x

def Session.Reaches (fuel : Nat) (limits : Limits) (cancelledFrom : Option Nat) (s : Session)
    (p : Program) : Nat → Task → Machine → Prop :=
  (Task.statements p.statements).Reaches ⟨limits, cancelledFrom, p.source⟩ fuel s.machine

theorem Script.failure_passes {α : Type} {ctx : Context}
    {run : (t : Task) → Machine → Outcome t.Result} {script : Script α} {t : Task}
    {m x after : Machine} {e : RuntimeError} (performs : script.Performs ctx run m t x)
    (failed : run t x = .failed e after) : ∃ last, script.exec ctx run m = .failed e last := by
  induction performs with
  | here t next m =>
    refine ⟨after, ?_⟩
    simp only [exec, failed, Outcome.bind]
  | behind result later ih =>
    obtain ⟨last, ended⟩ := ih failed
    refine ⟨last, ?_⟩
    simp only [exec, result]
    exact ended
  | stepped taken later ih =>
    obtain ⟨last, ended⟩ := ih failed
    refine ⟨last, ?_⟩
    simp only [exec, taken]
    exact ended
  | inspected later ih => exact ih failed
  | changed later ih => exact ih failed
  | drew drawn later ih =>
    obtain ⟨last, ended⟩ := ih failed
    refine ⟨last, ?_⟩
    simp only [exec, drawn]
    exact ended
  | body admitted =>
    refine ⟨after.leave, ?_⟩
    simp only [exec, admitted, failed, Bool.false_eq_true, if_false]
    rfl
  | returned admitted result later ih =>
    obtain ⟨last, ended⟩ := ih failed
    refine ⟨last, ?_⟩
    simp only [exec, admitted, result, Bool.false_eq_true, if_false]
    exact ended

theorem Task.failure_passes {ctx : Context} {n k : Nat} {t u : Task} {m x after : Machine}
    {e : RuntimeError} (reaches : t.Reaches ctx n m k u x)
    (failed : u.run k ctx x = .failed e after) : ∃ last, t.run n ctx m = .failed e last := by
  induction reaches with
  | here n t m => exact ⟨after, failed⟩
  | later performs reaches ih =>
    obtain ⟨mid, inner⟩ := ih failed
    rw [run_succ]
    exact Script.failure_passes performs inner

def Task.isInvocation : Task → Bool
  | invoke .. => true
  | _ => false

def Script.Plain {α : Type} : Script α → Prop
  | done _ | fail .. => True
  | step _ next | change _ next => next.Plain
  | inspect next => ∀ env, (next env).Plain
  | draw _ next => ∀ v, (next v).Plain
  | perform t next => t.isInvocation = false ∧ ∀ v, (next v).Plain
  | enter .. => False

theorem step_frames {ctx : Context} {pos : Position} {m mid : Machine}
    (taken : Evaluate.step ctx pos m = .done () mid) : m.SameFrames mid := by
  rcases Evaluate.step_cases ctx pos m with counted | ⟨cause, refused⟩
  · obtain ⟨-, rfl⟩ := Outcome.done.inj (taken.symm.trans counted)
    exact same_frames_is_law.tick m
  · cases taken.symm.trans refused

theorem Script.performs_plain {α : Type} {ctx : Context}
    {run : (t : Task) → Machine → Outcome t.Result} {script : Script α} {t : Task} {m x : Machine}
    (restored : ∀ t m after, (run t m).machine? = some after → m.SameFrames after)
    (performs : script.Performs ctx run m t x) (plain : script.Plain) :
    m.SameFrames x ∧ t.isInvocation = false := by
  have law := same_frames_is_law
  induction performs with
  | here t next m => exact ⟨law.refl m, plain.1⟩
  | @behind s t next v m mid x result later ih =>
    obtain ⟨same, other⟩ := ih (plain.2 v)
    exact ⟨law.trans (restored s m mid (by rw [result]; rfl)) same, other⟩
  | @stepped pos next t m mid x taken later ih =>
    obtain ⟨same, other⟩ := ih plain
    exact ⟨law.trans (step_frames taken) same, other⟩
  | inspected later ih => exact ih (plain _)
  | @changed c next t m x later ih =>
    obtain ⟨same, other⟩ := ih plain
    exact ⟨law.trans (law.change c m) same, other⟩
  | @drew limit value next t m mid x drawn later ih =>
    obtain ⟨same, other⟩ := ih (plain value)
    obtain ⟨_, random, eq⟩ := m.drawn_eq limit
    obtain ⟨-, rfl⟩ := Outcome.done.inj (drawn.symm.trans eq)
    exact ⟨law.trans (law.random m random) same, other⟩
  | body admitted => exact plain.elim
  | returned admitted result later ih => exact plain.elim

theorem Stmt.script_plain (s : Stmt) : s.script.Plain := by
  cases s with
  | loopCall pos count target =>
    refine ⟨rfl, ?_⟩
    intro total env
    dsimp only
    split
    · split
      · exact ⟨rfl, fun _ => trivial⟩
      · trivial
    · trivial
  | test pos left op right body =>
    refine ⟨rfl, ?_⟩
    intro l
    refine ⟨rfl, ?_⟩
    intro r
    dsimp only
    split
    · exact ⟨rfl, fun _ => trivial⟩
    · trivial
  | _ => simp [script, Script.Plain, Script.finish, Task.isInvocation]

theorem Script.found_plain {α : Type} (value : Option α) (missing : Cause) (pos : Position) :
    (found value missing pos).Plain := by
  cases value <;> trivial

theorem Expr.script_plain (e : Expr) : e.script.Plain := by
  cases e <;> simp [script, Script.Plain, Script.finish, Script.found_plain, Task.isInvocation]

theorem Signal.andThen_plain (signal : Signal) {next : Script Signal} (plain : next.Plain) :
    (signal.andThen next).Plain := by
  cases signal with
  | finished => exact plain
  | stop => trivial
  | output value => trivial

/-- What a task may perform: only an invocation enters a procedure, which is all that it does, and
    invocations are performed by loops over a procedure and by calls, behind their arguments. -/
theorem Task.performs_cases {ctx : Context} {run : (t : Task) → Machine → Outcome t.Result}
    {t s : Task} {m x : Machine}
    (restored : ∀ t m after, (run t m).machine? = some after → m.SameFrames after)
    (performs : t.script.Performs ctx run m s x) :
    (m.SameFrames x ∧ s.isInvocation = false) ∨
    (∃ q params pos, t = .invoke q params pos ∧ s = .statements q.body ∧
      x = m.called q params pos) ∨
    (m.SameFrames x ∧ ∃ pos q total i, t = .callRounds pos q total i ∧ s = .invoke q [] pos) ∨
    ∃ pos name args q values, t = .call pos name args ∧ m.env.procedure? name = some q ∧
      args.length = q.params.length ∧ run (.arguments args) m = .done values x ∧
      s = .invoke q (Evaluate.bindParams q.params values) pos := by
  cases t with
  | statements ss =>
    left
    apply Script.performs_plain restored performs
    cases ss with
    | nil => trivial
    | cons first rest =>
      refine ⟨rfl, ?_⟩
      intro signal
      exact signal.andThen_plain ⟨rfl, fun _ => trivial⟩
  | statement s =>
    left
    exact Script.performs_plain restored performs s.script_plain
  | rounds pos body total i =>
    left
    apply Script.performs_plain restored performs
    rw [script]
    split
    · refine ⟨rfl, ?_⟩
      intro signal
      exact signal.andThen_plain ⟨rfl, fun _ => trivial⟩
    · trivial
  | callRounds pos q total i =>
    rw [script] at performs
    split at performs
    · cases performs with
      | @stepped _ _ _ _ mid _ taken later =>
        have first := step_frames taken
        cases later with
        | here => exact .inr (.inr (.inl ⟨first, pos, q, total, i, rfl, rfl⟩))
        | @behind _ _ _ _ _ after _ result later =>
          have second := restored _ mid after (by rw [result]; rfl)
          cases later with
          | here => exact .inl ⟨same_frames_is_law.trans first second, rfl⟩
          | behind _ nothing => cases nothing
    · cases performs
  | operand what e =>
    left
    apply Script.performs_plain restored performs
    refine ⟨rfl, ?_⟩
    intro v
    dsimp only
    split <;> trivial
  | expr e =>
    left
    exact Script.performs_plain restored performs e.script_plain
  | arguments es =>
    left
    apply Script.performs_plain restored performs
    cases es with
    | nil => trivial
    | cons e rest => exact ⟨rfl, fun _ => ⟨rfl, fun _ => trivial⟩⟩
  | call pos name args =>
    cases performs with
    | inspected later =>
      dsimp only at later
      split at later
      · rename_i q known
        split at later
        · rename_i fits
          cases later with
          | here => exact .inl ⟨same_frames_is_law.refl m, rfl⟩
          | @behind _ _ _ values _ _ _ result later =>
            have count : args.length = q.params.length := by simpa [Procedure.arity] using fits
            cases later with
            | here =>
              exact .inr (.inr (.inr ⟨pos, name, args, q, values, rfl, known, count, result, rfl⟩))
            | behind _ nothing => cases nothing
        · cases later
      · cases later
  | invoke q params pos =>
    cases performs with
    | body admitted => exact .inr (.inl ⟨q, params, pos, rfl, rfl, rfl⟩)
    | returned admitted result later =>
      rename_i signal inside
      cases signal with
      | finished => cases later
      | stop =>
        cases later with
        | changed later => cases later
      | output value =>
        cases later with
        | changed later => cases later

namespace Task.Reaches
variable {ctx : Context} {n k : Nat} {t s : Task} {m x : Machine}

theorem performer (reaches : t.Reaches ctx n m k s x) :
    (k = n ∧ s = t ∧ x = m) ∨ ∃ u mid, t.Reaches ctx n m (k + 1) u mid ∧
      u.script.Performs ctx (fun s => s.run k ctx) mid s x := by
  induction reaches with
  | here n t m => exact .inl ⟨rfl, rfl, rfl⟩
  | @later n k t s u m mid x performs reaches ih =>
    right
    rcases ih with ⟨rfl, rfl, rfl⟩ | ⟨v, last, inner, performed⟩
    · exact ⟨t, m, .here _ t m, performs⟩
    · exact ⟨v, last, .later performs inner, performed⟩

theorem performs_frames (performs : t.script.Performs ctx (fun s => s.run n ctx) m s x) :
    x.env.frames = m.env.frames ∨ ∃ q params pos, t = .invoke q params pos ∧
      s = .statements q.body ∧ x = m.called q params pos := by
  rcases performs_cases (fun _ _ _ ends => same_frames_is_law.run ends) performs with
    ⟨same, -⟩ | entered | ⟨same, -⟩ | ⟨pos, name, args, q, values, -, -, -, result, -⟩
  · exact .inl same.2
  · exact .inr entered
  · exact .inl same.2
  · left
    have same : m.SameFrames x := same_frames_is_law.run (by rw [result]; rfl)
    exact same.2

theorem frames (reaches : t.Reaches ctx n m k s x) : m.env.frames <:+ x.env.frames := by
  induction reaches with
  | here n t m => exact List.suffix_refl _
  | later performs reaches ih =>
    rcases performs_frames performs with same | ⟨q, params, pos, rfl, rfl, rfl⟩
    · rwa [same] at ih
    · exact (List.suffix_cons _ _).trans ih

/-- A task begins in the frame of the run, or in the frame of an invocation that the run has reached
    and whose body has reached the task. -/
theorem invocation (reaches : t.Reaches ctx n m k s x) :
    x.env.frames = m.env.frames ∨ ∃ q params pos j y,
      t.Reaches ctx n m (j + 1) (.invoke q params pos) y ∧
      (Task.statements q.body).Reaches ctx j (y.called q params pos) k s x ∧
      x.env.frames = ⟨q.name, params⟩ :: y.env.frames := by
  induction reaches with
  | here n t m => exact .inl rfl
  | @later n k t s u m mid x performs reaches ih =>
    rcases ih with level | ⟨q, params, pos, j, y, invoked, served, innermost⟩
    · rcases performs_frames performs with same | ⟨q, params, pos, rfl, rfl, rfl⟩
      · exact .inl (level.trans same)
      · exact .inr ⟨q, params, pos, n, m, .here _ _ _, reaches, level⟩
    · exact .inr ⟨q, params, pos, j, y, .later performs invoked, served, innermost⟩

theorem invoker {q : Procedure} {params : Table Float} {pos : Position}
    (reaches : t.Reaches ctx n m k (.invoke q params pos) x)
    (begins : t.isInvocation = false) :
    params = [] ∨ ∃ name args values z, t.Reaches ctx n m (k + 1) (.call pos name args) z ∧
      z.env.procedure? name = some q ∧ args.length = q.params.length ∧
      Task.run k ctx (.arguments args) z = .done values x ∧
      params = Evaluate.bindParams q.params values := by
  rcases reaches.performer with ⟨-, same, -⟩ | ⟨u, z, reached, performs⟩
  · rw [← same] at begins
    cases begins
  rcases performs_cases (fun _ _ _ ends => same_frames_is_law.run ends) performs with
    ⟨-, other⟩ | ⟨p, _, _, -, same, -⟩ | ⟨-, _, _, _, _, -, same⟩ |
    ⟨callPos, name, args, p, values, rfl, known, fits, result, same⟩
  · cases other
  · cases same
  · cases same
    exact .inl rfl
  · cases same
    exact .inr ⟨name, args, values, z, reached, known, fits, result, rfl⟩

end Task.Reaches

end TurtleLogo
