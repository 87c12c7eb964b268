import TurtleLogo.Proofs.Evaluate.Law
import TurtleLogo.Session

/-!
Call frames. A procedure is entered on two stacks: the calls in progress, from which errors take
their frames, and the frames of parameters in the environment. The stacks are as they were when
an evaluation ends, however it ends, and while it goes on the same procedures are entered on both.
-/
namespace TurtleLogo
open Text

def Machine.SameFrames (m after : Machine) : Prop :=
  after.calls = m.calls ∧ after.env.frames = m.env.frames

theorem same_frames_is_law : Law Machine.SameFrames where
  refl _ := ⟨rfl, rfl⟩
  trans first second := ⟨second.1.trans first.1, second.2.trans first.2⟩
  tick _ := ⟨rfl, rfl⟩
  change c _ := by cases c <;> exact ⟨rfl, rfl⟩
  random _ _ := ⟨rfl, rfl⟩
  call p params pos inside := by
    obtain ⟨calls, frames⟩ := inside
    refine ⟨?_, ?_⟩
    · rw [Machine.leave, calls]
      rfl
    · rw [Machine.leave, Environment.leave, frames]
      rfl

/-- The machines that a script goes through, given what its tasks do and go through. -/
inductive Script.Passes {α : Type} (ctx : Context) (run : (t : Task) → Machine → Outcome t.Result)
    (through : Task → Machine → Machine → Prop) : Script α → Machine → Machine → Prop where
  | here (script : Script α) (m : Machine) : Passes ctx run through script m m
  | counted (pos : Position) (next : Script α) (m : Machine) :
      Passes ctx run through (.step pos next) m m.tick
  | stepped {pos : Position} {next : Script α} {m mid x : Machine}
      (taken : Evaluate.step ctx pos m = .done () mid) (later : Passes ctx run through next mid x) :
      Passes ctx run through (.step pos next) m x
  | inspected {next : Environment → Script α} {m x : Machine}
      (later : Passes ctx run through (next m.env) m x) :
      Passes ctx run through (.inspect next) m x
  | changed {c : Change} {next : Script α} {m x : Machine}
      (later : Passes ctx run through next (c.apply m) x) :
      Passes ctx run through (.change c next) m x
  | drew {limit value : Float} {next : Float → Script α} {m mid x : Machine}
      (drawn : m.drawn limit = .done value mid)
      (later : Passes ctx run through (next value) mid x) :
      Passes ctx run through (.draw limit next) m x
  | within {t : Task} {next : t.Result → Script α} {m x : Machine} (inner : through t m x) :
      Passes ctx run through (.perform t next) m x
  | behind {t : Task} {next : t.Result → Script α} {v : t.Result} {m mid x : Machine}
      (result : run t m = .done v mid) (later : Passes ctx run through (next v) mid x) :
      Passes ctx run through (.perform t next) m x
  | called {p : Procedure} {params : Table Float} {pos : Position} {next : Signal → Script α}
      {m x : Machine} (admitted : ctx.refuses m = false)
      (inner : through (.statements p.body) (m.called p params pos) x) :
      Passes ctx run through (.enter p params pos next) m x
  | left {p : Procedure} {params : Table Float} {pos : Position} {next : Signal → Script α}
      {m inside : Machine} (admitted : ctx.refuses m = false)
      (ended : (run (.statements p.body) (m.called p params pos)).machine? = some inside) :
      Passes ctx run through (.enter p params pos next) m inside.leave
  | returned {p : Procedure} {params : Table Float} {pos : Position} {next : Signal → Script α}
      {signal : Signal} {m inside x : Machine} (admitted : ctx.refuses m = false)
      (result : run (.statements p.body) (m.called p params pos) = .done signal inside)
      (later : Passes ctx run through (next signal) inside.leave x) :
      Passes ctx run through (.enter p params pos next) m x

def Task.Passes (ctx : Context) : Nat → Task → Machine → Machine → Prop
  | 0, _, m, x => x = m
  | n + 1, t, m, x => t.script.Passes ctx (fun s => s.run n ctx) (Passes ctx n) m x

theorem Script.passes_end {α : Type} {ctx : Context}
    {run : (t : Task) → Machine → Outcome t.Result} {through : Task → Machine → Machine → Prop}
    (inner : ∀ t m after, (run t m).machine? = some after → through t m after) (script : Script α)
    {m after : Machine} (ends : (script.exec ctx run m).machine? = some after) :
    script.Passes ctx run through m after := by
  induction script generalizing m with
  | done value =>
    simp only [exec, Outcome.machine?, Option.some.injEq] at ends
    exact ends ▸ .here _ m
  | fail cause pos =>
    simp only [exec, Evaluate.machine_fail, Option.some.injEq] at ends
    exact ends ▸ .here _ m
  | step pos next ih =>
    simp only [exec] at ends
    rcases Evaluate.step_cases ctx pos m with taken | ⟨cause, refused⟩
    · rw [taken] at ends
      exact .stepped taken (ih ends)
    · simp only [refused, Evaluate.bind_fail, Evaluate.machine_fail, Option.some.injEq] at ends
      exact ends ▸ .counted pos next m
  | inspect next ih =>
    simp only [exec] at ends
    exact .inspected (ih m.env ends)
  | change c next ih =>
    simp only [exec] at ends
    exact .changed (ih ends)
  | draw limit next ih =>
    obtain ⟨value, random, drawn⟩ := m.drawn_eq limit
    simp only [exec, drawn] at ends
    exact .drew drawn (ih value ends)
  | perform t next ih =>
    simp only [exec] at ends
    obtain ⟨v, mid, result, later⟩ | ⟨e, failure⟩ := Outcome.machine_bind ends
    · exact .behind result (ih v later)
    · exact .within (inner t m after (by rw [failure]; rfl))
  | enter p params pos next ih =>
    simp only [exec] at ends
    split at ends
    · simp only [Evaluate.machine_fail, Option.some.injEq] at ends
      exact ends ▸ .here _ m
    · rename_i admitted
      have admitted : ctx.refuses m = false := by simpa using admitted
      cases result : run (.statements p.body) (m.called p params pos) with
      | done signal inside =>
        rw [result] at ends
        exact .returned admitted result (ih signal ends)
      | failed e inside =>
        rw [result] at ends
        obtain rfl := Option.some.inj ends
        exact .left admitted (by rw [result]; rfl)
      | outOfFuel => simp [result, Outcome.onMachine, Outcome.bind, Outcome.machine?] at ends

theorem Task.passes_end {ctx : Context} {n : Nat} {t : Task} {m after : Machine}
    (ends : (t.run n ctx m).machine? = some after) : t.Passes ctx n m after := by
  induction n generalizing t m after with
  | zero => simp [run_zero, Outcome.machine?] at ends
  | succ n ih =>
    rw [run_succ] at ends
    refine Script.passes_end ?_ t.script ends
    intro s mid later inner
    exact ih inner

/-- The procedures entered from one machine to another are the same on both stacks. -/
def Machine.EntersInStep (m x : Machine) : Prop :=
  ∃ calls frames, x.calls.frames = calls ++ m.calls.frames ∧
    x.env.frames = frames ++ m.env.frames ∧
    calls.map CallFrame.procedure = frames.map Frame.procedure

namespace Machine.EntersInStep
variable {m mid x : Machine}

theorem of_same (same : m.SameFrames x) : m.EntersInStep x :=
  ⟨[], [], by rw [same.1]; rfl, same.2, rfl⟩

theorem after_same (same : m.SameFrames mid) (entered : mid.EntersInStep x) : m.EntersInStep x := by
  obtain ⟨calls, frames, callsEq, framesEq, names⟩ := entered
  exact ⟨calls, frames, by rw [callsEq, same.1], by rw [framesEq, same.2], names⟩

theorem after_call {p : Procedure} {params : Table Float} {pos : Position}
    (entered : (m.called p params pos).EntersInStep x) : m.EntersInStep x := by
  obtain ⟨calls, frames, callsEq, framesEq, names⟩ := entered
  refine ⟨calls ++ [⟨p.name, pos⟩], frames ++ [⟨p.name, params⟩], ?_, ?_, ?_⟩
  · rw [callsEq, List.append_assoc]
    rfl
  · rw [framesEq, List.append_assoc]
    rfl
  · rw [List.map_append, List.map_append, names]
    rfl

end Machine.EntersInStep

theorem Script.passes_in_step {α : Type} {ctx : Context}
    {run : (t : Task) → Machine → Outcome t.Result} {through : Task → Machine → Machine → Prop}
    (restored : ∀ t m after, (run t m).machine? = some after → m.SameFrames after)
    (inStep : ∀ t m x, through t m x → m.EntersInStep x) {script : Script α} {m x : Machine}
    (passes : script.Passes ctx run through m x) : m.EntersInStep x := by
  induction passes with
  | here script m => exact .of_same (same_frames_is_law.refl m)
  | counted pos next m => exact .of_same (same_frames_is_law.tick m)
  | @stepped pos next m mid x taken later ih =>
    rcases Evaluate.step_cases ctx pos m with step | ⟨cause, refused⟩
    · obtain ⟨-, rfl⟩ := Outcome.done.inj (taken.symm.trans step)
      exact .after_same (same_frames_is_law.tick m) ih
    · exact absurd (taken.symm.trans refused) (by simp [Evaluate.fail])
  | inspected later ih => exact ih
  | changed later ih => exact .after_same (same_frames_is_law.change _ _) ih
  | @drew limit value next m mid x drawn later ih =>
    obtain ⟨other, random, eq⟩ := m.drawn_eq limit
    obtain ⟨-, rfl⟩ := Outcome.done.inj (drawn.symm.trans eq)
    exact .after_same (same_frames_is_law.random m random) ih
  | within inner => exact inStep _ _ _ inner
  | behind result later ih =>
    exact .after_same (restored _ _ _ (by rw [result]; rfl)) ih
  | called admitted inner => exact .after_call (inStep _ _ _ inner)
  | left admitted ended =>
    exact .of_same (same_frames_is_law.call _ _ _ (restored _ _ _ ended))
  | returned admitted result later ih =>
    have body := restored _ _ _ (by rw [result]; rfl)
    exact .after_same (same_frames_is_law.call _ _ _ body) ih

theorem Task.passes_in_step {ctx : Context} {n : Nat} {t : Task} {m x : Machine}
    (passes : t.Passes ctx n m x) : m.EntersInStep x := by
  induction n generalizing t m x with
  | zero =>
    obtain rfl : x = m := passes
    exact .of_same (same_frames_is_law.refl x)
  | succ n ih =>
    exact Script.passes_in_step (fun _ _ _ ends => same_frames_is_law.run ends)
      (fun _ _ _ inner => ih inner) passes

namespace Session

inductive Action where
  | exec (fuel : Nat) (limits : Limits) (cancelledFrom : Option Nat) (source : Bytes)
  | run (fuel : Nat) (limits : Limits) (cancelledFrom : Option Nat) (p : Program)
  | setVariable (name : Name) (value : Float)
  | reset

def act (s : Session) : Action → Session
  | .exec fuel limits cancelledFrom source =>
    (s.execWith fuel limits cancelledFrom source).session
  | .run fuel limits cancelledFrom p => (s.runWith fuel limits cancelledFrom p).session
  | .setVariable name value => { s with env := s.env.setVariable name value }
  | .reset => s.reset

theorem runWith_frames (s : Session) (fuel : Nat) (limits : Limits) (cancelledFrom : Option Nat)
    (p : Program) : (s.runWith fuel limits cancelledFrom p).session.env.frames = s.env.frames := by
  have restored : ∀ after, (s.evaluate fuel limits cancelledFrom p).machine? = some after →
      after.env.frames = s.env.frames := fun after ends =>
    (same_frames_is_law.run (t := .statements p.statements) ends).2
  unfold runWith
  cases outcome : s.evaluate fuel limits cancelledFrom p with
  | done signal m => exact restored m (by rw [outcome]; rfl)
  | failed e m => exact restored m (by rw [outcome]; rfl)
  | outOfFuel => rfl

theorem execWith_of_parse_error (s : Session) (fuel : Nat) (limits : Limits)
    (cancelledFrom : Option Nat) {source : Bytes} {e : CompileError}
    (rejected : parse source = .error e) :
    (s.execWith fuel limits cancelledFrom source).session = s := by
  rw [execWith, rejected]

theorem execWith_of_parse_ok (s : Session) (fuel : Nat) (limits : Limits)
    (cancelledFrom : Option Nat) {source : Bytes} {p : Program} (accepted : parse source = .ok p) :
    (s.execWith fuel limits cancelledFrom source).session =
      (s.runWith fuel limits cancelledFrom p).session := by
  rw [execWith, accepted]

theorem act_frames (s : Session) (action : Action) (outside : s.env.frames = []) :
    (s.act action).env.frames = [] := by
  cases action with
  | exec fuel limits cancelledFrom source =>
    rw [act]
    cases parsed : parse source with
    | error e => rwa [execWith_of_parse_error s fuel limits cancelledFrom parsed]
    | ok p =>
      rw [execWith_of_parse_ok s fuel limits cancelledFrom parsed, runWith_frames]
      exact outside
  | run fuel limits cancelledFrom p =>
    rw [act, runWith_frames]
    exact outside
  | setVariable name value => exact outside
  | reset => rfl

theorem acts_frames (actions : List Action) {s : Session} (outside : s.env.frames = []) :
    (actions.foldl act s).env.frames = [] := by
  induction actions generalizing s with
  | nil => exact outside
  | cons action rest ih => exact ih (act_frames s action outside)

end Session

/-- Every evaluation restores the call stack and the frames of the environment with their
    parameters, and on its way the procedures entered are the same on both. So a session is never
    left inside a call, and a source text that does not compile does not touch it. -/
theorem call_frames_restored :
    (∀ (n : Nat) (ctx : Context) (t : Task) (m after : Machine),
      (t.run n ctx m).machine? = some after →
        after.calls = m.calls ∧ after.env.frames = m.env.frames) ∧
    (∀ (n : Nat) (ctx : Context) (t : Task) (m x : Machine), t.Passes ctx n m x →
      ∃ calls frames, x.calls.frames = calls ++ m.calls.frames ∧
        x.env.frames = frames ++ m.env.frames ∧
        calls.map CallFrame.procedure = frames.map Frame.procedure) ∧
    (∀ (random : Random.Stream) (actions : List Session.Action),
      (actions.foldl Session.act (Session.start random)).env.depth = 0) ∧
    ∀ (s : Session) (fuel : Nat) (limits : Limits) (cancelledFrom : Option Nat) (source : Bytes)
      (e : CompileError), parse source = .error e →
        (s.execWith fuel limits cancelledFrom source).session = s := by
  refine ⟨?_, ?_, ?_, ?_⟩
  · intro n ctx t m after ends
    exact same_frames_is_law.run ends
  · intro n ctx t m x passes
    exact Task.passes_in_step passes
  · intro random actions
    rw [Environment.depth, Session.acts_frames actions rfl, List.length_nil]
  · intro s fuel limits cancelledFrom source e rejected
    exact Session.execWith_of_parse_error s fuel limits cancelledFrom rejected

set_option maxRecDepth 100000 in
/-- A procedure without end, stopped by the quota inside its third call; a call, seen from within;
    and a text that does not compile. -/
theorem call_frames_restored_from_recursion :
    (∃ after, ((Task.statements [.define .nowhere [102] .nowhere [] [.call .nowhere [102] []],
        .call .nowhere [102] []]).run 20 ⟨⟨4, 0⟩, none, []⟩
        (Session.start ⟨0, 0⟩).machine).machine? = some after ∧ after.steps = 5 ∧
      after.calls = (Session.start ⟨0, 0⟩).machine.calls ∧
      after.env.frames = (Session.start ⟨0, 0⟩).machine.env.frames) ∧
    (∃ x, (Task.invoke ⟨[102], [], [], .nowhere⟩ [] .nowhere).Passes ⟨⟨0, 0⟩, none, []⟩ 1
        (Session.start ⟨0, 0⟩).machine x ∧ x.calls.depth = 1 ∧
      ∃ calls frames, x.calls.frames = calls ++ (Session.start ⟨0, 0⟩).machine.calls.frames ∧
        x.env.frames = frames ++ (Session.start ⟨0, 0⟩).machine.env.frames ∧
        calls.map CallFrame.procedure = frames.map Frame.procedure) ∧
    ∃ e, parse (utf8 "fd") = .error e ∧
      ((Session.start ⟨0, 0⟩).execWith 9 .none none (utf8 "fd")).session =
        Session.start ⟨0, 0⟩ := by
  refine ⟨?_, ?_, ?_⟩
  · obtain ⟨after, ends, steps⟩ : ∃ after, ((Task.statements
        [.define .nowhere [102] .nowhere [] [.call .nowhere [102] []],
        .call .nowhere [102] []]).run 20 ⟨⟨4, 0⟩, none, []⟩
        (Session.start ⟨0, 0⟩).machine).machine? = some after ∧ after.steps = 5 := ⟨_, rfl, rfl⟩
    exact ⟨after, ends, steps, call_frames_restored.1 _ _ _ _ _ ends⟩
  · have inside : (Task.invoke ⟨[102], [], [], .nowhere⟩ [] .nowhere).Passes ⟨⟨0, 0⟩, none, []⟩ 1
        (Session.start ⟨0, 0⟩).machine
        ((Session.start ⟨0, 0⟩).machine.called ⟨[102], [], [], .nowhere⟩ [] .nowhere) :=
      .called rfl rfl
    exact ⟨_, inside, rfl, call_frames_restored.2.1 _ _ _ _ _ inside⟩
  · obtain ⟨e, rejected⟩ : ∃ e, parse (utf8 "fd") = .error e := ⟨_, rfl⟩
    exact ⟨e, rejected, call_frames_restored.2.2.2 _ _ _ _ _ _ rejected⟩

end TurtleLogo
