import TurtleLogo.Proofs.Evaluate.Policy
import TurtleLogo.Proofs.Evaluate.Reach

/-!
Where a run is. A terrain divides what a run does into regions, one of them for each procedure. It
says which tasks belong to a region, what the two stacks look like there and which failures may
happen there. If the script of every task stays within the terrain as long
as the tasks that it performs do, then so does every run: the tasks that it gets to belong to a
region whose stacks are those of the machine, and its error was raised in such a region.
-/
namespace TurtleLogo
open Text

structure Terrain (ρ : Type) where
  body : Procedure → ρ
  task : ρ → Task → Prop
  result (t : Task) : t.Result → Prop
  procedure : Procedure → Prop
  stack : ρ → List CallFrame → List Frame → Prop
  failure : ρ → Cause → Position → Prop

namespace Terrain
variable {ρ : Type} (T : Terrain ρ)

def policy : Policy where
  task _ := True
  result := T.result
  procedure := T.procedure
  frame _ := True
  failure _ _ := True

structure Holds (r : ρ) (m : Machine) : Prop where
  env : T.policy.Knows m.env
  stack : T.stack r m.calls.frames m.env.frames

def Permits (source : Bytes) (e : RuntimeError) : Prop :=
  ∃ r m cause pos, T.Holds r m ∧ T.failure r cause pos ∧
    e = RuntimeError.at cause source pos m.calls.frames

def Meets {α : Type} (r : ρ) (source : Bytes) (post : α → Prop) : Outcome α → Prop
  | .done v m => post v ∧ T.Holds r m
  | .failed e m => T.Permits source e ∧ T.Holds r m
  | .outOfFuel => True

def MayRefuse (r : ρ) (pos : Position) : Prop :=
  (∀ limit, T.failure r (.stepQuota limit) pos) ∧ T.failure r .cancelled pos

/-- A procedure may be entered from here: the stacks in its region are the stacks here with one
    frame more. -/
def MayEnter (r : ρ) (p : Procedure) (params : Table Float) (pos : Position) : Prop :=
  (∀ limit, T.failure r (.recursion limit) pos) ∧ T.task (T.body p) (.statements p.body) ∧
    ∀ calls frames, T.stack r calls frames →
      T.stack (T.body p) (⟨p.name, pos⟩ :: calls) (⟨p.name, params⟩ :: frames)

end Terrain

/-- The script stays in the region, except within procedures that it enters, provided that its tasks
    do, and its value has a property. -/
def Script.Keeps {ρ α : Type} (T : Terrain ρ) (r : ρ) (post : α → Prop) : Script α → Prop
  | done v => post v
  | fail cause pos => T.failure r cause pos
  | step pos next => T.MayRefuse r pos ∧ next.Keeps T r post
  | inspect next => ∀ env calls, T.policy.Knows env → T.stack r calls env.frames →
      (next env).Keeps T r post
  | change c next => T.policy.Allows c ∧ next.Keeps T r post
  | draw _ next => ∀ v, (next v).Keeps T r post
  | perform t next => T.task r t ∧ ∀ v, T.result t v → (next v).Keeps T r post
  | enter p params pos next =>
    T.MayEnter r p params pos ∧
      ∀ signal, T.result (.statements p.body) signal → (next signal).Keeps T r post

namespace Terrain
variable {ρ : Type} {T : Terrain ρ} {r : ρ} {m : Machine}

namespace Holds

theorem of_same {after : Machine} (holds : T.Holds r m) (env : T.policy.Knows after.env)
    (same : m.SameFrames after) : T.Holds r after := by
  refine ⟨env, ?_⟩
  rw [same.1, same.2]
  exact holds.stack

theorem change {c : Change} (holds : T.Holds r m) (allowed : T.policy.Allows c) :
    T.Holds r (c.apply m) := by
  have known : T.policy.Holds m := ⟨holds.env, fun _ _ => trivial⟩
  exact holds.of_same (known.change allowed).env (same_frames_is_law.change c m)

theorem tick (holds : T.Holds r m) : T.Holds r m.tick := ⟨holds.env, holds.stack⟩

theorem random (holds : T.Holds r m) (stream : Random.Stream) :
    T.Holds r { m with random := stream } :=
  ⟨holds.env, holds.stack⟩

theorem leave {r' : ρ} {p : Procedure} {params : Table Float} {pos : Position} {inside : Machine}
    (holds : T.Holds r m) (body : T.Holds r' inside)
    (restored : (m.called p params pos).SameFrames inside) : T.Holds r inside.leave :=
  holds.of_same body.env (same_frames_is_law.call p params pos restored)

end Holds

theorem meets_fail {α : Type} {post : α → Prop} {ctx : Context} {cause : Cause} {pos : Position}
    (permitted : T.failure r cause pos) (holds : T.Holds r m) :
    T.Meets r ctx.source post (Evaluate.fail ctx cause pos m) :=
  ⟨⟨r, m, cause, pos, holds, permitted, rfl⟩, holds⟩

theorem Meets.bind {α β : Type} {source : Bytes} {pre : α → Prop} {post : β → Prop} {o : Outcome α}
    {f : α → Machine → Outcome β} (first : T.Meets r source pre o)
    (second : ∀ v m, pre v → T.Holds r m → T.Meets r source post (f v m)) :
    T.Meets r source post (o.bind f) := by
  cases o with
  | done v m => exact second v m first.1 first.2
  | failed e m => exact first
  | outOfFuel => trivial

theorem Meets.leave {α : Type} {source : Bytes} {post : α → Prop} {r' : ρ} {p : Procedure}
    {params : Table Float} {pos : Position} {o : Outcome α} (inside : T.Meets r' source post o)
    (holds : T.Holds r m)
    (restored : ∀ after, o.machine? = some after → (m.called p params pos).SameFrames after) :
    T.Meets r source post (o.onMachine Machine.leave) := by
  cases o with
  | done v after => exact ⟨inside.1, holds.leave inside.2 (restored after rfl)⟩
  | failed e after => exact ⟨inside.1, holds.leave inside.2 (restored after rfl)⟩
  | outOfFuel => trivial

theorem meets_step {ctx : Context} {pos : Position} (may : T.MayRefuse r pos)
    (holds : T.Holds r m) :
    T.Meets r ctx.source (fun _ => True) (Evaluate.step ctx pos m) := by
  rw [Evaluate.step_eq]
  split
  · exact meets_fail (may.1 _) holds.tick
  · split
    · exact meets_fail may.2 holds.tick
    · exact ⟨trivial, holds.tick⟩

theorem MayEnter.called {p : Procedure} {params : Table Float} {pos : Position}
    (may : T.MayEnter r p params pos) (holds : T.Holds r m) :
    T.Holds (T.body p) (m.called p params pos) :=
  ⟨holds.env, may.2.2 _ _ holds.stack⟩

def Sound (T : Terrain ρ) : Prop := ∀ r t, T.task r t → t.script.Keeps T r (T.result t)

section
variable {ctx : Context} {run : (t : Task) → Machine → Outcome t.Result}
  (restored : ∀ t m after, (run t m).machine? = some after → m.SameFrames after)
  (tasks : ∀ r t m, T.task r t → T.Holds r m → T.Meets r ctx.source (T.result t) (run t m))
include restored tasks

theorem exec {α : Type} {post : α → Prop} {script : Script α} (keeps : script.Keeps T r post)
    (holds : T.Holds r m) : T.Meets r ctx.source post (script.exec ctx run m) := by
  induction script generalizing m with
  | done v => exact ⟨keeps, holds⟩
  | fail cause pos => exact meets_fail keeps holds
  | step pos next ih =>
    apply (meets_step keeps.1 holds).bind
    intro _ mid _ later
    exact ih keeps.2 later
  | inspect next ih => exact ih m.env (keeps m.env _ holds.env holds.stack) holds
  | change c next ih => exact ih keeps.2 (holds.change keeps.1)
  | draw limit next ih =>
    obtain ⟨value, random, drawn⟩ := m.drawn_eq limit
    simp only [Script.exec, drawn]
    exact ih value (keeps value) (holds.random random)
  | perform t next ih =>
    apply (tasks r t m keeps.1 holds).bind
    intro v mid result later
    exact ih v (keeps.2 v result) later
  | enter p params pos next ih =>
    obtain ⟨may, after⟩ := keeps
    simp only [Script.exec]
    split
    · exact meets_fail (may.1 _) holds
    · have ended := tasks (T.body p) (.statements p.body) _ may.2.1 (may.called holds)
      apply (ended.leave holds (restored _ _)).bind
      intro signal mid result later
      exact ih signal (after signal result) later

theorem performs {α : Type} {post : α → Prop} {script : Script α} {s : Task} {x : Machine}
    (performs : script.Performs ctx run m s x) (keeps : script.Keeps T r post)
    (holds : T.Holds r m) :
    (T.task r s ∧ T.Holds r x ∧ x.env.frames = m.env.frames) ∨ ∃ p, T.task (T.body p) s ∧
      T.Holds (T.body p) x ∧ x.env.frames.length = m.env.frames.length + 1 := by
  induction performs with
  | here t next m => exact .inl ⟨keeps.1, holds, rfl⟩
  | @behind s t next v m mid x result later ih =>
    have task := tasks r s m keeps.1 holds
    rw [result] at task
    have same := restored s m mid (by rw [result]; rfl)
    rw [← same.2]
    exact ih (keeps.2 v task.1) task.2
  | @stepped pos next t m mid x taken later ih =>
    have step : T.Meets r ctx.source _ (Evaluate.step ctx pos m) := meets_step keeps.1 holds
    rw [taken] at step
    rw [← (step_frames taken).2]
    exact ih keeps.2 step.2
  | @inspected next t m x later ih =>
    exact ih (keeps m.env _ holds.env holds.stack) holds
  | @changed c next t m x later ih =>
    rw [← (same_frames_is_law.change c m).2]
    exact ih keeps.2 (holds.change keeps.1)
  | @drew limit value next t m mid x drawn later ih =>
    obtain ⟨other, random, eq⟩ := m.drawn_eq limit
    obtain ⟨-, rfl⟩ := Outcome.done.inj (drawn.symm.trans eq)
    exact ih (keeps value) (holds.random random)
  | @body p params pos next m admitted =>
    exact .inr ⟨p, keeps.1.2.1, keeps.1.called holds, rfl⟩
  | @returned p params pos next signal t m inside x admitted result later ih =>
    have ended := tasks (T.body p) (.statements p.body) _ keeps.1.2.1 (keeps.1.called holds)
    rw [result] at ended
    have same := restored _ _ inside (by rw [result]; rfl)
    rw [← (same_frames_is_law.call p params pos same).2]
    exact ih (keeps.2 signal ended.1) (holds.leave ended.2 same)

/-- What the script does is determined by what its tasks do within the terrain. -/
theorem exec_of_agree {other : (t : Task) → Machine → Outcome t.Result}
    (agree : ∀ r t m, T.task r t → T.Holds r m → other t m = run t m) {α : Type} {post : α → Prop}
    {script : Script α} (keeps : script.Keeps T r post) (holds : T.Holds r m) :
    script.exec ctx other m = script.exec ctx run m := by
  induction script generalizing m with
  | done v => rfl
  | fail cause pos => rfl
  | step pos next ih =>
    have step : T.Meets r ctx.source _ (Evaluate.step ctx pos m) := meets_step keeps.1 holds
    simp only [Script.exec]
    cases taken : Evaluate.step ctx pos m with
    | done _ mid =>
      rw [taken] at step
      exact ih keeps.2 step.2
    | failed e mid => rfl
    | outOfFuel => rfl
  | inspect next ih => exact ih m.env (keeps m.env _ holds.env holds.stack) holds
  | change c next ih => exact ih keeps.2 (holds.change keeps.1)
  | draw limit next ih =>
    obtain ⟨value, random, drawn⟩ := m.drawn_eq limit
    simp only [Script.exec, drawn]
    exact ih value (keeps value) (holds.random random)
  | perform t next ih =>
    have task := tasks r t m keeps.1 holds
    simp only [Script.exec, agree r t m keeps.1 holds]
    cases result : run t m with
    | done v mid =>
      rw [result] at task
      exact ih v (keeps.2 v task.1) task.2
    | failed e mid => rfl
    | outOfFuel => rfl
  | enter p params pos next ih =>
    have body := keeps.1.2.1
    have inside := keeps.1.called holds
    have ended := tasks (T.body p) (.statements p.body) _ body inside
    simp only [Script.exec, agree (T.body p) _ _ body inside]
    split
    · rfl
    · cases result : run (.statements p.body) (m.called p params pos) with
      | done signal after =>
        rw [result] at ended
        exact ih signal (keeps.2 signal ended.1)
          (holds.leave ended.2 (restored _ _ after (by rw [result]; rfl)))
      | failed e after => rfl
      | outOfFuel => rfl

end

theorem Sound.run (sound : T.Sound) (ctx : Context) (n : Nat) (r : ρ) (t : Task) (m : Machine)
    (task : T.task r t) (holds : T.Holds r m) :
    T.Meets r ctx.source (T.result t) (t.run n ctx m) := by
  induction n generalizing r t m with
  | zero =>
    rw [Task.run_zero]
    trivial
  | succ n ih =>
    rw [Task.run_succ]
    exact exec (fun _ _ _ ends => same_frames_is_law.run ends) ih (sound r t task) holds

theorem Sound.reaches (sound : T.Sound) {ctx : Context} {n k : Nat} {t s : Task} {x : Machine}
    (reaches : t.Reaches ctx n m k s x) (task : T.task r t) (holds : T.Holds r m) :
    ∃ r', T.task r' s ∧ T.Holds r' x := by
  induction reaches generalizing r with
  | here n t m => exact ⟨r, task, holds⟩
  | @later n k t s u m mid x step reaches ih =>
    rcases performs (fun _ _ _ ends => same_frames_is_law.run ends) (sound.run ctx n) step
      (sound r t task) holds with ⟨inner, same, -⟩ | ⟨p, inner, entered, -⟩
    · exact ih inner same
    · exact ih inner entered

theorem Sound.reaches_level (sound : T.Sound) {ctx : Context} {n k : Nat} {t s : Task} {x : Machine}
    (reaches : t.Reaches ctx n m k s x) (level : x.env.frames = m.env.frames)
    (task : T.task r t) (holds : T.Holds r m) : T.task r s ∧ T.Holds r x := by
  induction reaches generalizing r with
  | here n t m => exact ⟨task, holds⟩
  | @later n k t s u m mid x step reaches ih =>
    rcases performs (fun _ _ _ ends => same_frames_is_law.run ends) (sound.run ctx n) step
      (sound r t task) holds with ⟨inner, stays, same⟩ | ⟨p, -, -, deeper⟩
    · exact ih (level.trans same.symm) inner stays
    · -- behind a call the frames are one more, and they never get fewer again
      have below := reaches.frames.length_le
      rw [level] at below
      omega

end Terrain
end TurtleLogo
