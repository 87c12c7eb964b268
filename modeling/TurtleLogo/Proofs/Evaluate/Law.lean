import TurtleLogo.Proofs.Evaluate.Script

/-!
Laws of evaluation. What every single thing a script does keeps between the machine before and the
machine after is kept by every evaluation, however it ends. More fuel changes no evaluation that
came to an end.
-/
namespace TurtleLogo

/-- A relation between earlier and later machines, kept by everything a script does. A body of a
    procedure keeps it from inside the frame to the machine that has left the frame. -/
structure Law (R : Machine → Machine → Prop) : Prop where
  refl (m : Machine) : R m m
  trans {a b c : Machine} : R a b → R b c → R a c
  tick (m : Machine) : R m m.tick
  change (c : Change) (m : Machine) : R m (c.apply m)
  random (m : Machine) (stream : Random.Stream) : R m { m with random := stream }
  call {m inside : Machine} (p : Procedure) (params : Table Float) (pos : Position) :
    R (m.called p params pos) inside → R m inside.leave

namespace Law
variable {R : Machine → Machine → Prop} {ctx : Context}

theorem exec {α : Type} (law : Law R) {run : (t : Task) → Machine → Outcome t.Result}
    (tasks : ∀ t m after, (run t m).machine? = some after → R m after) (script : Script α)
    {m after : Machine} (ends : (script.exec ctx run m).machine? = some after) : R m after := by
  induction script generalizing m with
  | done value =>
    simp only [Script.exec, Outcome.machine?, Option.some.injEq] at ends
    exact ends ▸ law.refl m
  | fail cause pos =>
    simp only [Script.exec, Evaluate.machine_fail, Option.some.injEq] at ends
    exact ends ▸ law.refl m
  | step pos next ih =>
    refine law.trans (law.tick m) ?_
    simp only [Script.exec] at ends
    rcases Evaluate.step_cases ctx pos m with taken | ⟨cause, refused⟩
    · rw [taken] at ends
      exact ih ends
    · simp only [refused, Evaluate.bind_fail, Evaluate.machine_fail, Option.some.injEq] at ends
      exact ends ▸ law.refl m.tick
  | inspect next ih =>
    simp only [Script.exec] at ends
    exact ih m.env ends
  | change c next ih =>
    simp only [Script.exec] at ends
    exact law.trans (law.change c m) (ih ends)
  | draw limit next ih =>
    simp only [Script.exec] at ends
    obtain ⟨value, random, drawn⟩ := m.drawn_eq limit
    rw [drawn] at ends
    exact law.trans (law.random m random) (ih value ends)
  | perform t next ih =>
    simp only [Script.exec] at ends
    obtain ⟨v, mid, result, later⟩ | ⟨e, failure⟩ := Outcome.machine_bind ends
    · exact law.trans (tasks t m mid (by rw [result]; rfl)) (ih v later)
    · exact tasks t m after (by rw [failure]; rfl)
  | enter p params pos next ih =>
    have body : ∀ mid, ((run (.statements p.body) (m.called p params pos)).onMachine
        Machine.leave).machine? = some mid → R m mid := by
      intro mid left
      rw [Outcome.machine_onMachine] at left
      obtain ⟨inside, reached, rfl⟩ := Option.map_eq_some_iff.mp left
      exact law.call p params pos (tasks _ _ inside reached)
    simp only [Script.exec] at ends
    split at ends
    · simp only [Evaluate.machine_fail, Option.some.injEq] at ends
      exact ends ▸ law.refl m
    · obtain ⟨v, mid, result, later⟩ | ⟨e, failure⟩ := Outcome.machine_bind ends
      · exact law.trans (body mid (by rw [result]; rfl)) (ih v later)
      · exact body after (by rw [failure]; rfl)

theorem run (law : Law R) {n : Nat} {t : Task} {m after : Machine}
    (ends : (t.run n ctx m).machine? = some after) : R m after := by
  induction n generalizing t m after with
  | zero => simp [Task.run_zero, Outcome.machine?] at ends
  | succ n ih =>
    rw [Task.run_succ] at ends
    exact law.exec (fun _ _ _ ends => ih ends) t.script ends

end Law

/-- The steps are counted on, and what is drawn stays drawn. -/
def Machine.GrowsTo (m after : Machine) : Prop :=
  m.steps ≤ after.steps ∧ m.turtle.trail <:+ after.turtle.trail

theorem goTo_trail (t : Turtle) (x y : Float) : t.trail <:+ (t.goTo x y).trail := by
  unfold Turtle.goTo
  cases t.penDown
  · exact List.suffix_refl _
  · exact List.suffix_cons _ _

theorem change_steps (c : Change) (m : Machine) : (c.apply m).steps = m.steps := by cases c <;> rfl

theorem change_trail (c : Change) (m : Machine) :
    m.turtle.trail <:+ (c.apply m).turtle.trail := by
  cases c with
  | move forward distance => exact goTo_trail m.turtle _ _
  | home => exact goTo_trail m.turtle _ _
  | setXY x y => exact goTo_trail m.turtle _ _
  | _ => exact List.suffix_refl _

theorem growth_is_law : Law Machine.GrowsTo where
  refl _ := ⟨Nat.le_refl _, List.suffix_refl _⟩
  trans first second := ⟨Nat.le_trans first.1 second.1, first.2.trans second.2⟩
  tick _ := ⟨Nat.le_succ _, List.suffix_refl _⟩
  change c m := ⟨Nat.le_of_eq (change_steps c m).symm, change_trail c m⟩
  random _ _ := ⟨Nat.le_refl _, List.suffix_refl _⟩
  call _ _ _ inside := inside

theorem Script.exec_of_agree {α : Type} {ctx : Context}
    {run more : (t : Task) → Machine → Outcome t.Result}
    (agree : ∀ t m, run t m ≠ .outOfFuel → more t m = run t m) (script : Script α) {m : Machine}
    (ends : script.exec ctx run m ≠ .outOfFuel) :
    script.exec ctx more m = script.exec ctx run m := by
  induction script generalizing m with
  | done value => simp only [exec]
  | fail cause pos => simp only [exec]
  | step pos next ih =>
    simp only [exec] at ends ⊢
    rcases Evaluate.step_cases ctx pos m with taken | ⟨cause, refused⟩
    · rw [taken] at ends ⊢
      exact ih ends
    · rw [refused]
      rfl
  | inspect next ih =>
    simp only [exec] at ends ⊢
    exact ih m.env ends
  | change c next ih =>
    simp only [exec] at ends ⊢
    exact ih ends
  | draw limit next ih =>
    obtain ⟨value, random, drawn⟩ := m.drawn_eq limit
    simp only [exec, drawn] at ends ⊢
    exact ih value ends
  | perform t next ih =>
    simp only [exec] at ends ⊢
    cases result : run t m with
    | done v mid =>
      rw [result] at ends
      rw [agree t m (by simp [result]), result]
      exact ih v ends
    | failed e mid =>
      rw [agree t m (by simp [result]), result]
      rfl
    | outOfFuel =>
      rw [result] at ends
      exact absurd rfl ends
  | enter p params pos next ih =>
    simp only [exec] at ends ⊢
    split
    · rfl
    · rename_i admitted
      rw [if_neg admitted] at ends
      cases result : run (.statements p.body) (m.called p params pos) with
      | done v mid =>
        rw [result] at ends
        rw [agree _ _ (by simp [result]), result]
        exact ih v ends
      | failed e mid =>
        rw [agree _ _ (by simp [result]), result]
        rfl
      | outOfFuel =>
        rw [result] at ends
        exact absurd rfl ends

theorem Task.run_of_more_fuel {n k : Nat} {ctx : Context} {t : Task} {m : Machine}
    (ends : t.run n ctx m ≠ .outOfFuel) (fuel : n ≤ k) : t.run k ctx m = t.run n ctx m := by
  induction n generalizing k t m with
  | zero => exact absurd (Task.run_zero ctx t m) ends
  | succ n ih =>
    obtain ⟨k, rfl⟩ : ∃ j, k = j + 1 := ⟨k - 1, by omega⟩
    rw [run_succ] at ends
    rw [run_succ, run_succ]
    exact t.script.exec_of_agree (fun s mid ended => ih ended (by omega)) ends

end TurtleLogo
