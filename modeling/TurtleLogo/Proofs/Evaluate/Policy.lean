import TurtleLogo.Proofs.Evaluate.Frames

/-!
Policies of a run. A policy says which tasks may be performed and what they may give back, which
procedures may be defined, from where a procedure may be entered, and which failures may happen
where. If the script of every task obeys the policy as long as the tasks that it performs do, then
every run obeys it: in the machines it goes through, in its outcome and in its error.
-/
namespace TurtleLogo

structure Policy where
  task : Task → Prop
  result (t : Task) : t.Result → Prop
  procedure : Procedure → Prop
  frame : CallFrame → Prop
  failure : Cause → Position → Prop

namespace Policy
variable (π : Policy)

def Knows (env : Environment) : Prop :=
  ∀ name p, env.procedure? name = some p → p.name = name ∧ π.procedure p

structure Holds (m : Machine) : Prop where
  env : π.Knows m.env
  frames : ∀ f ∈ m.calls.frames, π.frame f

def Permits (e : RuntimeError) : Prop :=
  ∃ cause source pos calls, e = RuntimeError.at cause source pos calls ∧ π.failure cause pos

def Meets {α : Type} (post : α → Prop) : Outcome α → Prop
  | .done v m => post v ∧ π.Holds m
  | .failed e m => π.Permits e ∧ π.Holds m
  | .outOfFuel => True

def Allows : Change → Prop
  | .define p => π.procedure p
  | _ => True

end Policy

/-- The script obeys the policy, provided that its tasks do, and its value has a property. -/
def Script.Obeys {α : Type} (π : Policy) (post : α → Prop) : Script α → Prop
  | done v => post v
  | fail cause pos => π.failure cause pos
  | step _ next => next.Obeys π post
  | inspect next => ∀ env, π.Knows env → (next env).Obeys π post
  | change c next => π.Allows c ∧ next.Obeys π post
  | draw _ next => ∀ v, (next v).Obeys π post
  | perform t next => π.task t ∧ ∀ v, π.result t v → (next v).Obeys π post
  | enter p _ pos next =>
    π.task (.statements p.body) ∧ π.frame ⟨p.name, pos⟩ ∧
      ∀ signal, π.result (.statements p.body) signal → (next signal).Obeys π post

theorem Table.get_set {α : Type} (t : Table α) (name other : Name) (value : α) :
    (t.set name value).get? other = if other = name then some value else t.get? other := by
  have lookup_cons : ∀ (key : Name) (v : α) (rest : Table α),
      get? ((key, v) :: rest) other = if other = key then some v else rest.get? other := by
    intro key v rest
    rw [get?, List.lookup_cons]
    by_cases same : other = key
    · simp [same]
    · simp [same, beq_eq_false_iff_ne.mpr same, get?]
  induction t with
  | nil => exact lookup_cons name value []
  | cons entry rest ih =>
    obtain ⟨key, old⟩ := entry
    rw [set]
    by_cases first : key = name
    · subst first
      rw [if_pos (beq_self_eq_true key), lookup_cons, lookup_cons]
      split <;> rfl
    · rw [if_neg (by simpa using first), lookup_cons, lookup_cons, ih]
      by_cases same : other = key
      · rw [if_pos same, if_pos same, if_neg (by rw [same]; exact first)]
      · rw [if_neg same, if_neg same]

namespace Policy
variable {π : Policy}

namespace Holds
variable {m : Machine}

theorem change {c : Change} (holds : π.Holds m) (allowed : π.Allows c) : π.Holds (c.apply m) := by
  cases c with
  | define p =>
    refine ⟨fun name q known => ?_, holds.frames⟩
    have found : (m.env.procedures.set p.name p).get? name = some q := known
    rw [Table.get_set] at found
    split at found
    · rename_i same
      obtain rfl := Option.some.inj found
      exact ⟨same.symm, allowed⟩
    · exact holds.env name q found
  | _ => exact ⟨holds.env, holds.frames⟩

theorem tick (holds : π.Holds m) : π.Holds m.tick := ⟨holds.env, holds.frames⟩

theorem random (holds : π.Holds m) (stream : Random.Stream) :
    π.Holds { m with random := stream } :=
  ⟨holds.env, holds.frames⟩

theorem called {p : Procedure} {pos : Position} (holds : π.Holds m) (params : Table Float)
    (entry : π.frame ⟨p.name, pos⟩) : π.Holds (m.called p params pos) := by
  refine ⟨holds.env, fun f member => ?_⟩
  rcases List.mem_cons.mp member with rfl | earlier
  · exact entry
  · exact holds.frames f earlier

theorem leave (holds : π.Holds m) : π.Holds m.leave :=
  ⟨holds.env, fun f member => holds.frames f (List.mem_of_mem_tail member)⟩

end Holds

/-- Tasks obey the policy, and it does not forbid that a step or a call is refused. -/
structure Sound (π : Policy) : Prop where
  script (t : Task) : π.task t → t.script.Obeys π (π.result t)
  quota (limit : Nat) (pos : Position) : π.failure (.stepQuota limit) pos
  cancelled (pos : Position) : π.failure .cancelled pos
  recursion (limit : Nat) (pos : Position) : π.failure (.recursion limit) pos

theorem meets_fail {α : Type} {post : α → Prop} {ctx : Context} {cause : Cause} {pos : Position}
    {m : Machine} (permitted : π.failure cause pos) (holds : π.Holds m) :
    π.Meets post (Evaluate.fail ctx cause pos m) :=
  ⟨⟨cause, ctx.source, pos, m.calls.frames, rfl, permitted⟩, holds⟩

theorem Meets.bind {α β : Type} {pre : α → Prop} {post : β → Prop} {o : Outcome α}
    {f : α → Machine → Outcome β} (first : π.Meets pre o)
    (second : ∀ v m, pre v → π.Holds m → π.Meets post (f v m)) : π.Meets post (o.bind f) := by
  cases o with
  | done v m => exact second v m first.1 first.2
  | failed e m => exact first
  | outOfFuel => exact trivial

theorem Meets.leave {α : Type} {post : α → Prop} {o : Outcome α} (inside : π.Meets post o) :
    π.Meets post (o.onMachine Machine.leave) := by
  cases o with
  | done v m => exact ⟨inside.1, inside.2.leave⟩
  | failed e m => exact ⟨inside.1, inside.2.leave⟩
  | outOfFuel => exact trivial

theorem Meets.holds {α : Type} {post : α → Prop} {o : Outcome α} {m : Machine}
    (meets : π.Meets post o) (ends : o.machine? = some m) : π.Holds m := by
  cases o with
  | done v after => exact Option.some.inj ends ▸ meets.2
  | failed e after => exact Option.some.inj ends ▸ meets.2
  | outOfFuel => simp [Outcome.machine?] at ends

namespace Sound
variable (sound : π.Sound) {ctx : Context}
include sound

theorem step {pos : Position} {m : Machine} (holds : π.Holds m) :
    π.Meets (fun _ => True) (Evaluate.step ctx pos m) := by
  rw [Evaluate.step_eq]
  split
  · exact meets_fail (sound.quota _ pos) holds.tick
  · split
    · exact meets_fail (sound.cancelled pos) holds.tick
    · exact ⟨trivial, holds.tick⟩

section
variable {run : (t : Task) → Machine → Outcome t.Result}
  (tasks : ∀ t m, π.task t → π.Holds m → π.Meets (π.result t) (run t m))
include tasks

theorem exec {α : Type} {post : α → Prop} {script : Script α} (obeys : script.Obeys π post)
    {m : Machine} (holds : π.Holds m) : π.Meets post (script.exec ctx run m) := by
  induction script generalizing m with
  | done v => exact ⟨obeys, holds⟩
  | fail cause pos => exact meets_fail obeys holds
  | step pos next ih => exact (sound.step holds).bind fun _ mid _ later => ih obeys later
  | inspect next ih => exact ih m.env (obeys m.env holds.env) holds
  | change c next ih => exact ih obeys.2 (holds.change obeys.1)
  | draw limit next ih =>
    obtain ⟨value, random, drawn⟩ := m.drawn_eq limit
    simp only [Script.exec, drawn]
    exact ih value (obeys value) (holds.random random)
  | perform t next ih =>
    exact (tasks t m obeys.1 holds).bind fun v mid result later => ih v (obeys.2 v result) later
  | enter p params pos next ih =>
    obtain ⟨body, entry, after⟩ := obeys
    simp only [Script.exec]
    split
    · exact meets_fail (sound.recursion _ pos) holds
    · have inside := tasks (.statements p.body) _ body (holds.called params entry)
      exact inside.leave.bind fun signal mid result later => ih signal (after signal result) later

theorem script_passes {through : Task → Machine → Machine → Prop}
    (inner : ∀ t m x, π.task t → π.Holds m → through t m x → π.Holds x) {α : Type}
    {post : α → Prop} {script : Script α} {m x : Machine}
    (passes : script.Passes ctx run through m x) (obeys : script.Obeys π post)
    (holds : π.Holds m) : π.Holds x := by
  induction passes with
  | here script m => exact holds
  | counted pos next m => exact holds.tick
  | @stepped pos next m mid x taken later ih =>
    have step : π.Meets _ (Evaluate.step ctx pos m) := sound.step holds
    rw [taken] at step
    exact ih obeys step.2
  | @inspected next m x later ih => exact ih (obeys m.env holds.env) holds
  | changed later ih => exact ih obeys.2 (holds.change obeys.1)
  | @drew limit value next m mid x drawn later ih =>
    obtain ⟨other, random, eq⟩ := m.drawn_eq limit
    obtain ⟨-, rfl⟩ := Outcome.done.inj (drawn.symm.trans eq)
    exact ih (obeys value) (holds.random random)
  | @within t next m x entered => exact inner t m x obeys.1 holds entered
  | @behind t next v m mid x result later ih =>
    have task := tasks t m obeys.1 holds
    rw [result] at task
    exact ih (obeys.2 v task.1) task.2
  | @called p params pos next m x admitted entered =>
    exact inner _ _ x obeys.1 (holds.called params obeys.2.1) entered
  | @left p params pos next m inside admitted ended =>
    have body := tasks (.statements p.body) _ obeys.1 (holds.called params obeys.2.1)
    exact (body.holds ended).leave
  | @returned p params pos next signal m inside x admitted result later ih =>
    have body := tasks (.statements p.body) _ obeys.1 (holds.called params obeys.2.1)
    rw [result] at body
    exact ih (obeys.2.2 signal body.1) body.2.leave

end

theorem run (ctx : Context) (n : Nat) (t : Task) (m : Machine) (task : π.task t)
    (holds : π.Holds m) : π.Meets (π.result t) (t.run n ctx m) := by
  induction n generalizing t m with
  | zero =>
    rw [Task.run_zero]
    exact trivial
  | succ n ih =>
    rw [Task.run_succ]
    exact sound.exec ih (sound.script t task) holds

theorem passes (n : Nat) (t : Task) (m x : Machine) (task : π.task t) (holds : π.Holds m)
    (passes : t.Passes ctx n m x) : π.Holds x := by
  induction n generalizing t m x with
  | zero =>
    obtain rfl : x = m := passes
    exact holds
  | succ n ih =>
    exact sound.script_passes (sound.run ctx n) ih passes (sound.script t task) holds

end Sound
end Policy
end TurtleLogo
