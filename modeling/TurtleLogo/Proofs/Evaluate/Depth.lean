import Mathlib.Data.Nat.Find
import TurtleLogo.Proofs.Evaluate.Frames
import TurtleLogo.Proofs.Evaluate.Quota
import TurtleLogo.Proofs.Program.Decisions

/-!
Recursion limits. A run with a limit goes as the run without until one call too many would be in
progress, and fails there. So the limit is told from the deepest call of the run without: up to the
limit nothing differs, and behind it the error has a frame for every call in progress and one for
the place of the refused call.
-/
namespace TurtleLogo
open Text

def Context.withRecursion (ctx : Context) (limit : Nat) : Context :=
  { ctx with limits := { ctx.limits with recursion := limit } }

theorem RuntimeError.at_frames_length (cause : Cause) (source : Bytes) (pos : Position)
    (calls : List CallFrame) :
    (RuntimeError.at cause source pos calls).frames.length = calls.length + 1 := by
  cases calls <;> rfl

namespace Machine
variable {m : Machine}

theorem SameFrames.depth {after : Machine} (same : m.SameFrames after) :
    after.calls.depth = m.calls.depth := by
  rw [same.1]

theorem called_depth (m : Machine) (p : Procedure) (params : Table Float) (pos : Position) :
    (m.called p params pos).calls.depth = m.calls.depth + 1 :=
  rfl

end Machine

theorem Context.refuses_iff {ctx : Context} {m : Machine} :
    ctx.refuses m = true ↔ 0 < ctx.limits.recursion ∧ ctx.limits.recursion ≤ m.calls.depth := by
  rw [refuses, Bool.and_eq_true, decide_eq_true_eq, decide_eq_true_eq]

theorem Context.admitted_depth {ctx : Context} {m : Machine} (positive : 0 < ctx.limits.recursion)
    (admitted : ctx.refuses m = false) : m.calls.depth + 1 ≤ ctx.limits.recursion := by
  by_contra deep
  have refused : ctx.refuses m = true := Context.refuses_iff.mpr ⟨positive, by omega⟩
  rw [admitted] at refused
  cases refused

theorem Task.passes_start (ctx : Context) (n : Nat) (t : Task) (m : Machine) :
    t.Passes ctx n m m := by
  cases n with
  | zero => rfl
  | succ n => exact .here _ m

/-- How a run with a limit compares with the run without, which visits some machines. It is the
    same where they keep to the limit, and fails at the first call beyond the limit otherwise. -/
inductive Capped (limit : Nat) (visited : Machine → Prop) {α : Type} :
    Outcome α → Outcome α → Prop where
  | same {o : Outcome α} (shallow : ∀ x, visited x → x.calls.depth ≤ limit) :
      Capped limit visited o o
  | short {o : Outcome α} {e : RuntimeError} {m : Machine} (cause : e.cause = .recursion limit)
      (frames : e.frames.length = limit + 1) (deep : ∃ x, visited x ∧ limit < x.calls.depth)
      (drawn : ∀ after, o.machine? = some after → m.turtle.trail <:+ after.turtle.trail) :
      Capped limit visited o (.failed e m)

namespace Capped
variable {limit : Nat} {visited : Machine → Prop} {α β : Type} {full cut : Outcome α}

theorem extend {more : Machine → Prop} (capped : Capped limit visited full cut)
    (kept : ∀ x, visited x → more x)
    (added : ∀ x, more x → visited x ∨ x.calls.depth ≤ limit) : Capped limit more full cut := by
  cases capped with
  | same shallow =>
    apply Capped.same
    intro x new
    rcases added x new with old | low
    · exact shallow x old
    · exact low
  | short cause frames deep drawn =>
    obtain ⟨x, old, beyond⟩ := deep
    exact .short cause frames ⟨x, kept x old, beyond⟩ drawn

theorem bind (later : α → Machine → Machine → Prop) {f g : α → Machine → Outcome β}
    (first : Capped limit visited full cut)
    (second : ∀ v m, full = .done v m → Capped limit (later v m) (f v m) (g v m))
    (grows : ∀ v m after, (f v m).machine? = some after → m.GrowsTo after) :
    Capped limit (fun x => visited x ∨ ∃ v m, full = .done v m ∧ later v m x)
      (full.bind f) (cut.bind g) := by
  cases first with
  | same shallow =>
    cases full with
    | done v m =>
      apply (second v m rfl).extend
      · intro x inner
        exact .inr ⟨v, m, rfl, inner⟩
      · rintro x (before | ⟨v, m, ⟨⟩, inner⟩)
        · exact .inr (shallow x before)
        · exact .inl inner
    | failed e m =>
      apply Capped.same
      rintro x (before | ⟨v, m, ⟨⟩, inner⟩)
      exact shallow x before
    | outOfFuel =>
      apply Capped.same
      rintro x (before | ⟨v, m, ⟨⟩, inner⟩)
      exact shallow x before
  | short cause frames deep drawn =>
    obtain ⟨x, before, beyond⟩ := deep
    apply Capped.short cause frames ⟨x, .inl before, beyond⟩
    intro after ends
    obtain ⟨v, mid, result, later⟩ | ⟨e, failure⟩ := Outcome.machine_bind ends
    · exact (drawn mid (by rw [result]; rfl)).trans (grows v mid after later).2
    · exact drawn after (by rw [failure]; rfl)

theorem leave (inside : Capped limit visited full cut) :
    Capped limit visited (full.onMachine Machine.leave) (cut.onMachine Machine.leave) := by
  cases inside with
  | same shallow => exact .same shallow
  | short cause frames deep drawn =>
    apply Capped.short cause frames deep
    intro after ends
    rw [Outcome.machine_onMachine] at ends
    obtain ⟨inside, reached, rfl⟩ := Option.map_eq_some_iff.mp ends
    exact drawn inside reached

theorem eq_of_shallow (capped : Capped limit visited full cut)
    (shallow : ∀ x, visited x → x.calls.depth ≤ limit) : cut = full := by
  cases capped with
  | same => rfl
  | short cause frames deep drawn =>
    obtain ⟨x, seen, beyond⟩ := deep
    exact absurd (shallow x seen) (Nat.not_le.mpr beyond)

theorem short_of_deep (capped : Capped limit visited full cut) {x : Machine} (seen : visited x)
    (beyond : limit < x.calls.depth) :
    ∃ e m, cut = .failed e m ∧ e.cause = .recursion limit ∧ e.frames.length = limit + 1 := by
  cases capped with
  | same shallow => exact absurd (shallow x seen) (Nat.not_le.mpr beyond)
  | short cause frames deep drawn => exact ⟨_, _, rfl, cause, frames⟩

theorem drawn {e : RuntimeError} {m after : Machine} (capped : Capped limit visited full cut)
    (failed : cut = .failed e m) (ends : full.machine? = some after) :
    m.turtle.trail <:+ after.turtle.trail := by
  cases capped with
  | same shallow =>
    rw [failed] at ends
    obtain rfl := Option.some.inj ends
    exact List.suffix_refl _
  | short cause frames deep drawn =>
    obtain ⟨rfl, rfl⟩ := Outcome.failed.inj failed
    exact drawn after ends

end Capped

section
variable {limit : Nat} {ctx : Context} {α : Type} {m : Machine}
  {full cut : (t : Task) → Machine → Outcome t.Result} {through : Task → Machine → Machine → Prop}

theorem Script.enter_capped (positive : 0 < limit) (starts : ∀ t m, through t m m)
    (restored : ∀ t m after, (full t m).machine? = some after → m.SameFrames after)
    (grows : ∀ t m after, (full t m).machine? = some after → m.GrowsTo after)
    (tasks : ∀ t m, m.calls.depth ≤ limit → Capped limit (through t m) (full t m) (cut t m))
    {p : Procedure} {params : Table Float} {pos : Position} {next : Signal → Script α}
    (later : ∀ signal {m : Machine}, m.calls.depth ≤ limit →
      Capped limit ((next signal).Passes (ctx.withRecursion 0) full through m)
        ((next signal).exec (ctx.withRecursion 0) full m)
        ((next signal).exec (ctx.withRecursion limit) cut m))
    (within : m.calls.depth ≤ limit) :
    Capped limit ((Script.enter p params pos next).Passes (ctx.withRecursion 0) full through m)
      ((Script.enter p params pos next).exec (ctx.withRecursion 0) full m)
      ((Script.enter p params pos next).exec (ctx.withRecursion limit) cut m) := by
  have free : (ctx.withRecursion 0).refuses m = false := rfl
  by_cases refused : (ctx.withRecursion limit).refuses m = true
  · have full_depth : limit ≤ m.calls.depth := (Context.refuses_iff.mp refused).2
    have fails : (Script.enter p params pos next).exec (ctx.withRecursion limit) cut m =
        Evaluate.fail (ctx.withRecursion limit) (.recursion limit) pos m := by
      simp only [exec, refused, if_true]
      rfl
    rw [fails]
    apply Capped.short rfl
    · rw [RuntimeError.at_frames_length, ← m.calls.depth_eq]
      omega
    · refine ⟨m.called p params pos, .called free (starts _ _), ?_⟩
      rw [Machine.called_depth]
      omega
    · intro after ends
      exact (growth_is_law.exec grows _ ends).2
  · have left : m.calls.depth + 1 ≤ (ctx.withRecursion limit).limits.recursion :=
      Context.admitted_depth positive (by simpa using refused)
    have behind : ∀ inside, (full (.statements p.body) (m.called p params pos)).machine? =
        some inside → inside.leave.calls.depth ≤ limit := by
      intro inside ended
      have same := same_frames_is_law.call p params pos (restored _ _ _ ended)
      rw [same.depth]
      exact within
    have body := (tasks (.statements p.body) (m.called p params pos) left).leave
    simp only [exec, if_neg refused, free, Bool.false_eq_true, if_false]
    apply Capped.extend (body.bind
      (fun signal m x => (next signal).Passes (ctx.withRecursion 0) full through m x)
      (f := fun signal m => (next signal).exec _ full m) ?_ ?_)
    · rintro x (inner | ⟨signal, mid, result, inner⟩)
      · exact .called free inner
      · cases ended : full (.statements p.body) (m.called p params pos) with
        | done signal inside =>
          rw [ended] at result
          obtain ⟨rfl, rfl⟩ := Outcome.done.inj result
          exact .returned free ended inner
        | failed e inside => simp [ended, Outcome.onMachine] at result
        | outOfFuel => simp [ended, Outcome.onMachine] at result
    · intro x passes
      cases passes with
      | here => exact .inr within
      | called admitted inner => exact .inl (.inl inner)
      | left admitted ended => exact .inr (behind _ ended)
      | @returned _ _ _ _ signal _ inside _ admitted result inner =>
        exact .inl (.inr ⟨signal, inside.leave, by rw [result]; rfl, inner⟩)
    · intro signal mid result
      apply later signal
      have ended : ((full (.statements p.body) (m.called p params pos)).onMachine
          Machine.leave).machine? = some mid := by
        rw [result]
        rfl
      rw [Outcome.machine_onMachine] at ended
      obtain ⟨inside, reached, rfl⟩ := Option.map_eq_some_iff.mp ended
      exact behind inside reached
    · intro signal mid after ends
      exact growth_is_law.exec grows (next signal) ends

theorem Script.exec_capped (positive : 0 < limit) (starts : ∀ t m, through t m m)
    (restored : ∀ t m after, (full t m).machine? = some after → m.SameFrames after)
    (grows : ∀ t m after, (full t m).machine? = some after → m.GrowsTo after)
    (tasks : ∀ t m, m.calls.depth ≤ limit → Capped limit (through t m) (full t m) (cut t m))
    (script : Script α) (within : m.calls.depth ≤ limit) :
    Capped limit (script.Passes (ctx.withRecursion 0) full through m)
      (script.exec (ctx.withRecursion 0) full m) (script.exec (ctx.withRecursion limit) cut m) := by
  induction script generalizing m with
  | done value =>
    apply Capped.same
    rintro x ⟨⟩
    exact within
  | fail cause pos =>
    apply Capped.same
    rintro x ⟨⟩
    exact within
  | step pos next ih =>
    have agree : Evaluate.step (ctx.withRecursion limit) pos m =
        Evaluate.step (ctx.withRecursion 0) pos m := rfl
    simp only [exec, agree]
    rcases Evaluate.step_cases (ctx.withRecursion 0) pos m with taken | ⟨cause, refused⟩
    · rw [taken]
      apply (ih (m := m.tick) within).extend
      · intro x later
        exact .stepped taken later
      · intro x passes
        cases passes with
        | here => exact .inr within
        | counted => exact .inr within
        | stepped counted later =>
          obtain ⟨-, rfl⟩ := Outcome.done.inj (counted.symm.trans taken)
          exact .inl later
    · rw [refused]
      apply Capped.same
      intro x passes
      cases passes with
      | here => exact within
      | counted => exact within
      | stepped counted later => cases counted.symm.trans refused
  | inspect next ih =>
    apply (ih m.env within).extend
    · intro x later
      exact .inspected later
    · intro x passes
      cases passes with
      | here => exact .inr within
      | inspected later => exact .inl later
  | change c next ih =>
    have same := (same_frames_is_law.change c m).depth
    apply (ih (m := c.apply m) (by rwa [same])).extend
    · intro x later
      exact .changed later
    · intro x passes
      cases passes with
      | here => exact .inr within
      | changed later => exact .inl later
  | draw limit next ih =>
    obtain ⟨value, random, drawn⟩ := m.drawn_eq limit
    simp only [exec, drawn]
    apply (ih value (m := { m with random := random }) within).extend
    · intro x later
      exact .drew drawn later
    · intro x passes
      cases passes with
      | here => exact .inr within
      | drew other later =>
        obtain ⟨rfl, rfl⟩ := Outcome.done.inj (other.symm.trans drawn)
        exact .inl later
  | perform t next ih =>
    apply Capped.extend ((tasks t m within).bind
      (fun v m x => (next v).Passes (ctx.withRecursion 0) full through m x)
      (f := fun v m => (next v).exec _ full m) ?_ ?_)
    · rintro x (inner | ⟨v, mid, result, inner⟩)
      · exact .within inner
      · exact .behind result inner
    · intro x passes
      cases passes with
      | here => exact .inr within
      | within inner => exact .inl (.inl inner)
      | behind result inner => exact .inl (.inr ⟨_, _, result, inner⟩)
    · intro v mid result
      have same := (restored t m mid (by rw [result]; rfl)).depth
      exact ih v (by rwa [same])
    · intro v mid after ends
      exact growth_is_law.exec grows (next v) ends
  | enter p params pos next ih =>
    exact enter_capped positive starts restored grows tasks ih within

end

theorem Task.run_capped {limit : Nat} (positive : 0 < limit) (ctx : Context) (n : Nat) (t : Task)
    {m : Machine} (within : m.calls.depth ≤ limit) :
    Capped limit (t.Passes (ctx.withRecursion 0) n m) (t.run n (ctx.withRecursion 0) m)
      (t.run n (ctx.withRecursion limit) m) := by
  induction n generalizing t m with
  | zero =>
    rw [run_zero, run_zero]
    apply Capped.same
    rintro x rfl
    exact within
  | succ n ih =>
    rw [run_succ, run_succ]
    apply t.script.exec_capped positive (passes_start _ n) _ _ _ within
    · intro s mid after ends
      exact same_frames_is_law.run ends
    · intro s mid after ends
      exact growth_is_law.run ends
    · intro s mid low
      exact ih s low

section
variable {ctx : Context} {run : (t : Task) → Machine → Outcome t.Result}
  {through : Task → Machine → Machine → Prop} {α : Type} {script : Script α} {m x : Machine}

theorem Script.passes_level
    (restored : ∀ t m after, (run t m).machine? = some after → m.SameFrames after)
    (passes : script.Passes ctx run through m x) :
    x.calls.depth = m.calls.depth ∨ ∃ t mid, through t mid x ∧
      (mid.calls.depth = m.calls.depth ∨ mid.calls.depth = m.calls.depth + 1 ∧
        (0 < ctx.limits.recursion → mid.calls.depth ≤ ctx.limits.recursion)) := by
  induction passes with
  | here script m => exact .inl rfl
  | counted pos next m => exact .inl rfl
  | @stepped pos next m mid x taken later ih =>
    rcases Evaluate.step_cases ctx pos m with counted | ⟨cause, refused⟩
    · obtain ⟨-, rfl⟩ := Outcome.done.inj (taken.symm.trans counted)
      exact ih
    · cases taken.symm.trans refused
  | inspected later ih => exact ih
  | @changed c next m x later ih =>
    rw [(same_frames_is_law.change c m).depth] at ih
    exact ih
  | @drew limit value next m mid x drawn later ih =>
    obtain ⟨other, random, eq⟩ := m.drawn_eq limit
    obtain ⟨-, rfl⟩ := Outcome.done.inj (drawn.symm.trans eq)
    exact ih
  | within inner => exact .inr ⟨_, _, inner, .inl rfl⟩
  | @behind t next v m mid x result later ih =>
    have same := restored t m mid (by rw [result]; rfl)
    rw [same.depth] at ih
    exact ih
  | @called p params pos next m x admitted inner =>
    refine .inr ⟨_, _, inner, .inr ⟨rfl, ?_⟩⟩
    intro positive
    exact Context.admitted_depth positive admitted
  | left admitted ended =>
    left
    exact (same_frames_is_law.call _ _ _ (restored _ _ _ ended)).depth
  | @returned p params pos next signal m inside x admitted result later ih =>
    have same := same_frames_is_law.call p params pos (restored _ _ inside (by rw [result]; rfl))
    rw [same.depth] at ih
    exact ih

theorem Script.raised {e : RuntimeError} {last : Machine}
    (tasks : ∀ t m e last, run t m = .failed e last →
      ∃ x, through t m x ∧ e.frames.length = x.calls.depth + 1)
    (failed : script.exec ctx run m = .failed e last) :
    ∃ x, script.Passes ctx run through m x ∧ e.frames.length = x.calls.depth + 1 := by
  have of_fail : ∀ {β : Type} {cause : Cause} {pos : Position} {m : Machine},
      Evaluate.fail (α := β) ctx cause pos m = .failed e last →
      e.frames.length = m.calls.depth + 1 := by
    intro β cause pos m same
    obtain ⟨rfl, rfl⟩ := Outcome.failed.inj same
    rw [RuntimeError.at_frames_length, ← m.calls.depth_eq]
  induction script generalizing m with
  | done value => cases failed
  | fail cause pos => exact ⟨m, .here _ m, of_fail failed⟩
  | step pos next ih =>
    simp only [exec] at failed
    rcases Evaluate.step_cases ctx pos m with taken | ⟨cause, refused⟩
    · rw [taken] at failed
      obtain ⟨x, later, frames⟩ := ih failed
      exact ⟨x, .stepped taken later, frames⟩
    · rw [refused] at failed
      exact ⟨m.tick, .counted pos next m, of_fail failed⟩
  | inspect next ih =>
    obtain ⟨x, later, frames⟩ := ih m.env failed
    exact ⟨x, .inspected later, frames⟩
  | change c next ih =>
    obtain ⟨x, later, frames⟩ := ih failed
    exact ⟨x, .changed later, frames⟩
  | draw limit next ih =>
    obtain ⟨value, random, drawn⟩ := m.drawn_eq limit
    simp only [exec, drawn] at failed
    obtain ⟨x, later, frames⟩ := ih value failed
    exact ⟨x, .drew drawn later, frames⟩
  | perform t next ih =>
    simp only [exec] at failed
    cases result : run t m with
    | done v mid =>
      rw [result] at failed
      obtain ⟨x, later, frames⟩ := ih v failed
      exact ⟨x, .behind result later, frames⟩
    | failed other mid =>
      rw [result] at failed
      obtain ⟨rfl, rfl⟩ := Outcome.failed.inj failed
      obtain ⟨x, inner, frames⟩ := tasks t m _ _ result
      exact ⟨x, .within inner, frames⟩
    | outOfFuel =>
      rw [result] at failed
      cases failed
  | enter p params pos next ih =>
    simp only [exec] at failed
    split at failed
    · exact ⟨m, .here _ m, of_fail failed⟩
    · rename_i admitted
      have admitted : ctx.refuses m = false := by simpa using admitted
      cases result : run (.statements p.body) (m.called p params pos) with
      | done signal inside =>
        rw [result] at failed
        obtain ⟨x, later, frames⟩ := ih signal failed
        exact ⟨x, .returned admitted result later, frames⟩
      | failed other inside =>
        rw [result] at failed
        obtain ⟨rfl, -⟩ := Outcome.failed.inj failed
        obtain ⟨x, inner, frames⟩ := tasks _ _ _ _ result
        exact ⟨x, .called admitted inner, frames⟩
      | outOfFuel =>
        rw [result] at failed
        cases failed

end

namespace Task
variable {ctx : Context} {n : Nat} {t : Task} {m x : Machine}

theorem passes_depth_le_fuel (passes : t.Passes ctx n m x) :
    x.calls.depth ≤ m.calls.depth + n := by
  induction n generalizing t m with
  | zero =>
    obtain rfl : x = m := passes
    exact Nat.le_refl _
  | succ n ih =>
    rcases Script.passes_level (fun _ _ _ ends => same_frames_is_law.run ends) passes with
      same | ⟨s, mid, inner, same | ⟨deeper, -⟩⟩
    · omega
    · have bound := ih inner
      omega
    · have bound := ih inner
      omega

theorem passes_depth_le_limit (positive : 0 < ctx.limits.recursion)
    (within : m.calls.depth ≤ ctx.limits.recursion) (passes : t.Passes ctx n m x) :
    x.calls.depth ≤ ctx.limits.recursion := by
  induction n generalizing t m with
  | zero =>
    obtain rfl : x = m := passes
    exact within
  | succ n ih =>
    rcases Script.passes_level (fun _ _ _ ends => same_frames_is_law.run ends) passes with
      same | ⟨s, mid, inner, same | ⟨-, admitted⟩⟩
    · rwa [same]
    · exact ih (by rwa [same]) inner
    · exact ih (admitted positive) inner

theorem raised {e : RuntimeError} {last : Machine} (failed : t.run n ctx m = .failed e last) :
    ∃ x, t.Passes ctx n m x ∧ e.frames.length = x.calls.depth + 1 := by
  induction n generalizing t m e last with
  | zero => cases (run_zero ctx t m).symm.trans failed
  | succ n ih =>
    rw [run_succ] at failed
    apply Script.raised _ failed
    intro s mid other after inner
    exact ih inner

end Task

namespace Session
variable {s : Session} {p : Program} {limits : Limits} {cancelledFrom : Option Nat}

def Passes (fuel : Nat) (limits : Limits) (cancelledFrom : Option Nat) (s : Session) (p : Program)
    (x : Machine) : Prop :=
  (Task.statements p.statements).Passes ⟨limits, cancelledFrom, p.source⟩ fuel s.machine x

structure Deepest (limits : Limits) (cancelledFrom : Option Nat) (s : Session) (p : Program)
    (depth : Nat) : Prop where
  bound : ∀ fuel x, s.Passes fuel limits cancelledFrom p x → x.calls.depth ≤ depth
  attained : ∃ fuel x, s.Passes fuel limits cancelledFrom p x ∧ x.calls.depth = depth

theorem Ends.unique {o other : Outcome Signal} (ends : s.Ends limits cancelledFrom p o)
    (also : s.Ends limits cancelledFrom p other) : o = other := by
  obtain ⟨-, fuel, stable⟩ := ends
  obtain ⟨-, more, settled⟩ := also
  rw [← stable (max fuel more) (Nat.le_max_left ..), settled _ (Nat.le_max_right ..)]

theorem evaluate_capped {limit : Nat} (positive : 0 < limit) (fuel : Nat) (s : Session)
    (p : Program) : Capped limit (s.Passes fuel .none none p) (s.evaluate fuel .none none p)
      (s.evaluate fuel ⟨0, limit⟩ none p) :=
  Task.run_capped positive ⟨.none, none, p.source⟩ fuel (.statements p.statements)
    (Nat.zero_le limit)

theorem ends_of_shallow {o : Outcome Signal} {limit : Nat} (ends : s.Ends .none none p o)
    (shallow : ∀ fuel x, s.Passes fuel .none none p x → x.calls.depth ≤ limit) :
    s.Ends ⟨0, limit⟩ none p o := by
  rcases Nat.eq_zero_or_pos limit with rfl | positive
  · exact ends
  · obtain ⟨proper, fuel, stable⟩ := ends
    refine ⟨proper, fuel, ?_⟩
    intro more enough
    rw [(evaluate_capped positive more s p).eq_of_shallow (shallow more), stable more enough]

theorem ends_of_deep {limit fuel : Nat} {x : Machine} (positive : 0 < limit)
    (passes : s.Passes fuel .none none p x) (beyond : limit < x.calls.depth) :
    ∃ e last, s.Ends ⟨0, limit⟩ none p (.failed e last) ∧ e.cause = .recursion limit ∧
      e.frames.length = limit + 1 := by
  obtain ⟨e, last, failed, cause, frames⟩ :=
    (evaluate_capped positive fuel s p).short_of_deep passes beyond
  refine ⟨e, last, ?_, cause, frames⟩
  rw [← failed]
  apply ends_of_evaluate
  rw [failed]
  nofun

theorem drawn_under_limit {o : Outcome Signal} {limit : Nat} {e : RuntimeError} {last m : Machine}
    (positive : 0 < limit) (ends : s.Ends .none none p o) (reached : o.machine? = some m)
    (cut : s.Ends ⟨0, limit⟩ none p (.failed e last)) :
    last.turtle.segments <+: m.turtle.segments := by
  obtain ⟨-, fuel, stable⟩ := ends
  obtain ⟨-, more, settled⟩ := cut
  apply List.reverse_prefix.mpr
  apply (evaluate_capped positive (max fuel more) s p).drawn (settled _ (Nat.le_max_right ..))
  rw [stable _ (Nat.le_max_left ..)]
  exact reached

/-- A run that comes to an end has a deepest call. Its fuel bounds what it goes through, and with
    more fuel the run could only be deeper if two limits both were the cause of one error. -/
theorem exists_deepest {o : Outcome Signal} (ends : s.Ends .none none p o) :
    ∃ depth, s.Deepest .none none p depth := by
  classical
  obtain ⟨proper, fuel, stable⟩ := ends
  have cut_short : ∀ limit, fuel < limit → ∀ more x, s.Passes more .none none p x →
      limit < x.calls.depth → ∃ e last, o = .failed e last ∧ e.cause = .recursion limit := by
    intro limit above more x passes beyond
    have positive : 0 < limit := by omega
    have shallow : ∀ x, s.Passes fuel .none none p x → x.calls.depth ≤ limit := by
      intro x passes
      have bound : x.calls.depth ≤ 0 + fuel := Task.passes_depth_le_fuel passes
      omega
    have kept := (evaluate_capped positive fuel s p).eq_of_shallow shallow
    rw [stable fuel (Nat.le_refl fuel)] at kept
    have ended : s.Ends ⟨0, limit⟩ none p o := by
      rw [← kept]
      apply ends_of_evaluate
      rwa [kept]
    obtain ⟨e, last, failed, cause, -⟩ := ends_of_deep positive passes beyond
    exact ⟨e, last, ended.unique failed, cause⟩
  have bound : ∀ more x, s.Passes more .none none p x → x.calls.depth ≤ fuel + 2 := by
    intro more x passes
    by_contra deep
    obtain ⟨e, last, failed, cause⟩ := cut_short (fuel + 1) (by omega) more x passes (by omega)
    obtain ⟨e', last', failed', cause'⟩ := cut_short (fuel + 2) (by omega) more x passes (by omega)
    obtain ⟨rfl, -⟩ := Outcome.failed.inj (failed.symm.trans failed')
    cases cause.symm.trans cause'
  let attained (depth : Nat) : Prop := ∃ more x, s.Passes more .none none p x ∧
    x.calls.depth = depth
  have start : attained 0 := ⟨0, s.machine, rfl, rfl⟩
  refine ⟨Nat.findGreatest attained (fuel + 2), ?_, Nat.findGreatest_spec (Nat.zero_le _) start⟩
  intro more x passes
  exact Nat.le_findGreatest (bound more x passes) ⟨more, x, passes, rfl⟩

end Session

/-- A recursion limit only truncates. A run without bounds that comes to an end has a deepest call.
    Every limit that it does not exceed gives the same outcome on the same machine, and every other
    limit fails with a frame more than the limit and with what was drawn so far. No run with a limit
    goes deeper than the limit, nor has its error more frames. -/
theorem recursion_limit_only_truncates (s : Session) (p : Program) :
    (∀ o m, s.Ends .none none p o → o.machine? = some m → ∃ depth, s.Deepest .none none p depth ∧
      (∀ limit, depth ≤ limit → s.Ends ⟨0, limit⟩ none p o) ∧
      ∀ limit, 0 < limit → limit < depth → ∃ e last, s.Ends ⟨0, limit⟩ none p (.failed e last) ∧
        e.cause.kind = .runtime ∧
        e.cause.message =
          utf8 "recursion depth exceeded (limit " ++ decimal limit ++ utf8 ")" ∧
        e.frames.length = limit + 1 ∧ last.turtle.segments <+: m.turtle.segments) ∧
    ∀ limit > 0, ∀ stepQuota cancelledFrom fuel,
      (∀ x, s.Passes fuel ⟨stepQuota, limit⟩ cancelledFrom p x → x.calls.depth ≤ limit) ∧
      ∀ e last, s.evaluate fuel ⟨stepQuota, limit⟩ cancelledFrom p = .failed e last →
        e.frames.length ≤ limit + 1 := by
  constructor
  · intro o m ends reached
    obtain ⟨depth, deepest⟩ := Session.exists_deepest ends
    refine ⟨depth, deepest, ?_, ?_⟩
    · intro limit enough
      apply Session.ends_of_shallow ends
      intro fuel x passes
      exact Nat.le_trans (deepest.bound fuel x passes) enough
    · intro limit positive below
      obtain ⟨fuel, x, passes, rfl⟩ := deepest.attained
      obtain ⟨e, last, cut, cause, frames⟩ := Session.ends_of_deep positive passes below
      have drawn := Session.drawn_under_limit positive ends reached cut
      exact ⟨e, last, cut, by rw [cause]; rfl, by rw [cause]; rfl, frames, drawn⟩
  · intro limit positive stepQuota cancelledFrom fuel
    have within : ∀ x, s.Passes fuel ⟨stepQuota, limit⟩ cancelledFrom p x →
        x.calls.depth ≤ limit := by
      intro x passes
      have kept : x.calls.depth ≤
          (⟨⟨stepQuota, limit⟩, cancelledFrom, p.source⟩ : Context).limits.recursion :=
        Task.passes_depth_le_limit positive (Nat.zero_le limit) passes
      exact kept
    refine ⟨within, ?_⟩
    intro e last failed
    obtain ⟨x, passes, frames⟩ := Task.raised (t := .statements p.statements) failed
    rw [frames]
    exact Nat.succ_le_succ (within x passes)

def nestedCalls : Program :=
  ⟨[.define .nowhere [103] .nowhere [] [.home .nowhere],
    .define .nowhere [102] .nowhere [] [.call .nowhere [103] []], .call .nowhere [102] []], []⟩

/-- Of two nested calls a limit of one admits the outer call only. -/
theorem recursion_limit_only_truncates_nested :
    ∃ o m, (Session.start ⟨0, 0⟩).Ends .none none nestedCalls o ∧ o.machine? = some m ∧
      (Session.start ⟨0, 0⟩).Deepest .none none nestedCalls 2 ∧
      (Session.start ⟨0, 0⟩).Ends ⟨0, 2⟩ none nestedCalls o ∧
      (∃ e last, (Session.start ⟨0, 0⟩).Ends ⟨0, 1⟩ none nestedCalls (.failed e last) ∧
        e.frames.length = 2 ∧ last.turtle.segments <+: m.turtle.segments) ∧
      ∀ x, (Session.start ⟨0, 0⟩).Passes 20 ⟨0, 1⟩ none nestedCalls x → x.calls.depth ≤ 1 := by
  obtain ⟨truncates, within⟩ := recursion_limit_only_truncates (Session.start ⟨0, 0⟩) nestedCalls
  obtain ⟨⟨m, ran⟩, ⟨_, ran_two⟩, _, _, ran_one, -⟩ :
      (∃ m, (Session.start ⟨0, 0⟩).evaluate 20 .none none nestedCalls = .done .finished m) ∧
      (∃ m, (Session.start ⟨0, 0⟩).evaluate 20 ⟨0, 2⟩ none nestedCalls = .done .finished m) ∧
      ∃ e m, (Session.start ⟨0, 0⟩).evaluate 20 ⟨0, 1⟩ none nestedCalls = .failed e m ∧
        e.frames.length = 2 := by decide +kernel
  have ends := Session.ends_of_evaluate_eq ran nofun
  have ends_two := Session.ends_of_evaluate_eq ran_two nofun
  have ends_one := Session.ends_of_evaluate_eq ran_one nofun
  obtain ⟨depth, deepest, enough, below⟩ := truncates _ _ ends rfl
  obtain rfl : depth = 2 := by
    rcases Nat.lt_trichotomy depth 2 with less | same | more
    · cases ends_one.unique (enough 1 (by omega))
    · exact same
    · obtain ⟨_, _, cut, -⟩ := below 2 (by decide) more
      cases ends_two.unique cut
  obtain ⟨e, last, cut, -, -, frames, drawn⟩ := below 1 (by decide) (by decide)
  exact ⟨_, m, ends, rfl, deepest, enough 2 (Nat.le_refl 2), ⟨e, last, cut, frames, drawn⟩,
    (within 1 (by decide) 0 none 20).1⟩

end TurtleLogo
