import TurtleLogo.Proofs.Evaluate.Frames

/-!
The vocabulary of a session. A run makes no names up: those of variables, procedures and parameters
that are known behind it were known before, or are written in the program. So what holds of every
name in a program holds of every name that programs leave behind.
-/
namespace TurtleLogo
open Text

mutual

def Stmt.coined : Stmt → List Name
  | .define _ name _ params body => name :: (params ++ coinedIn body)
  | .make _ name _ => [name]
  | .loop _ _ body => coinedIn body
  | .test _ _ _ _ body => coinedIn body
  | _ => []

def coinedIn : List Stmt → List Name
  | [] => []
  | s :: rest => s.coined ++ coinedIn rest

end

def Procedure.coined (p : Procedure) : List Name := p.name :: (p.params ++ coinedIn p.body)

def Change.coined : Change → List Name
  | .define p => p.coined
  | .setVariable name _ => [name]
  | _ => []

def Task.coined : Task → List Name
  | .statements ss => coinedIn ss
  | .statement s => s.coined
  | .rounds _ body _ _ => coinedIn body
  | .callRounds _ p _ _ => p.coined
  | .invoke p _ _ => p.coined
  | .operand .. | .expr _ | .arguments _ | .call .. => []

variable {W : Name → Prop}

/-- What is known by name, or can be made known by a known procedure, is named by words of a
    vocabulary. -/
structure Environment.Speaks (W : Name → Prop) (e : Environment) : Prop where
  globals : ∀ entry ∈ e.globals, W entry.1
  procedures : ∀ entry ∈ e.procedures, ∀ name ∈ entry.2.coined, W name

theorem empty_speaks : Environment.empty.Speaks W :=
  ⟨fun _ member => absurd member List.not_mem_nil, fun _ member => absurd member List.not_mem_nil⟩

theorem Table.mem_set {α : Type} {t : Table α} {name : Name} {value : α} {entry : Name × α}
    (member : entry ∈ t.set name value) : entry ∈ t ∨ entry = (name, value) := by
  induction t with
  | nil => exact .inr (List.mem_singleton.mp member)
  | cons first rest ih =>
    obtain ⟨key, old⟩ := first
    rw [set] at member
    split at member
    · rename_i same
      obtain rfl := eq_of_beq same
      rcases List.mem_cons.mp member with rfl | later
      · exact .inr rfl
      · exact .inl (List.mem_cons_of_mem _ later)
    · rcases List.mem_cons.mp member with rfl | later
      · exact .inl List.mem_cons_self
      · exact (ih later).imp_left (List.mem_cons_of_mem _)

theorem Table.mem_of_get? {α : Type} {t : Table α} {name : Name} {value : α}
    (found : t.get? name = some value) : (name, value) ∈ t := by
  obtain ⟨before, behind, parts, -⟩ := List.lookup_eq_some_iff.mp found
  rw [parts]
  exact List.mem_append_right _ List.mem_cons_self

namespace Environment.Speaks
variable {e : Environment}

theorem setVariable (speaks : e.Speaks W) {name : Name} (word : W name) (value : Float) :
    (e.setVariable name value).Speaks W := by
  refine ⟨fun entry member => ?_, speaks.procedures⟩
  rcases Table.mem_set member with known | rfl
  · exact speaks.globals entry known
  · exact word

theorem define (speaks : e.Speaks W) {p : Procedure} (words : ∀ name ∈ p.coined, W name) :
    (e.define p).Speaks W := by
  refine ⟨speaks.globals, fun entry member => ?_⟩
  rcases Table.mem_set member with known | rfl
  · exact speaks.procedures entry known
  · exact words

theorem procedure (speaks : e.Speaks W) {name : Name} {p : Procedure}
    (found : e.procedure? name = some p) : ∀ name ∈ p.coined, W name :=
  speaks.procedures _ (Table.mem_of_get? found)

theorem change {m : Machine} (speaks : m.env.Speaks W) {c : Change}
    (words : ∀ name ∈ c.coined, W name) : (c.apply m).env.Speaks W := by
  cases c with
  | define p => exact speaks.define words
  | setVariable name value => exact speaks.setVariable (words name List.mem_cons_self) value
  | _ => exact speaks

theorem called {m : Machine} (speaks : m.env.Speaks W) (p : Procedure) (params : Table Float)
    (pos : Position) : (m.called p params pos).env.Speaks W :=
  ⟨speaks.globals, speaks.procedures⟩

theorem leave {m : Machine} (speaks : m.env.Speaks W) : m.leave.env.Speaks W :=
  ⟨speaks.globals, speaks.procedures⟩

end Environment.Speaks

/-- What the script makes known is named by words, as long as what is known is. -/
def Script.Utters (W : Name → Prop) {α : Type} : Script α → Prop
  | done _ | fail .. => True
  | step _ next => next.Utters W
  | inspect next => ∀ env : Environment, env.Speaks W → (next env).Utters W
  | change c next => (∀ name ∈ c.coined, W name) ∧ next.Utters W
  | draw _ next => ∀ v, (next v).Utters W
  | perform t next => (∀ name ∈ t.coined, W name) ∧ ∀ v, (next v).Utters W
  | enter p _ _ next => (∀ name ∈ coinedIn p.body, W name) ∧ ∀ signal, (next signal).Utters W

namespace Script

theorem lookup_utters {α : Type} {name : Name} {pos : Position} {next : Procedure → Script α}
    (utters : ∀ p : Procedure, (∀ name ∈ p.coined, W name) → (next p).Utters W) :
    (lookup name pos next).Utters W := by
  intro env speaks
  dsimp only
  cases found : env.procedure? name with
  | none => exact trivial
  | some p => exact utters p (speaks.procedure found)

theorem found_utters {α : Type} (value : Option α) (missing : Cause) (pos : Position) :
    (found value missing pos).Utters W := by
  cases value <;> exact trivial

theorem finish_utters {t : Task} (words : ∀ name ∈ t.coined, W name) : (finish t).Utters W :=
  ⟨words, fun _ => trivial⟩

end Script

theorem no_words : ∀ name ∈ ([] : List Name), W name :=
  fun _ member => absurd member List.not_mem_nil

theorem Signal.andThen_utters {next : Script Signal} (utters : next.Utters W) (signal : Signal) :
    (signal.andThen next).Utters W := by
  cases signal with
  | finished => exact utters
  | stop | output => exact trivial

theorem Signal.returned_utters (procedure : Name) (signal : Signal) :
    (signal.returned procedure).Utters W := by
  cases signal with
  | finished => exact trivial
  | stop | output => exact ⟨no_words, trivial⟩

theorem stmt_utters (s : Stmt) (words : ∀ name ∈ s.coined, W name) : s.script.Utters W := by
  cases s with
  | define pos name namePos params body => exact ⟨words, trivial⟩
  | make pos name value => exact ⟨no_words, fun _ => ⟨words, trivial⟩⟩
  | loop pos count body => exact ⟨no_words, fun _ => Script.finish_utters words⟩
  | loopCall pos count target =>
    refine ⟨no_words, fun total => Script.lookup_utters fun p known => ?_⟩
    split
    · exact Script.finish_utters known
    · exact trivial
  | pen | home => exact ⟨no_words, trivial⟩
  | move | turn | setHeading => exact ⟨no_words, fun _ => ⟨no_words, trivial⟩⟩
  | setXY => exact ⟨no_words, fun _ => ⟨no_words, fun _ => ⟨no_words, trivial⟩⟩⟩
  | call | output => exact ⟨no_words, fun _ => trivial⟩
  | test pos left op right body =>
    refine ⟨no_words, fun l => ⟨no_words, fun r => ?_⟩⟩
    dsimp only
    split
    · exact Script.finish_utters words
    · exact trivial
  | stop => exact trivial

theorem expr_utters (e : Expr) : e.script.Utters W := by
  cases e with
  | number => exact trivial
  | param pos name | var pos name => exact fun env _ => Script.found_utters _ _ _
  | group => exact Script.finish_utters no_words
  | negate => exact ⟨no_words, fun _ => trivial⟩
  | random => exact ⟨no_words, fun _ _ => trivial⟩
  | binary => exact ⟨no_words, fun _ => ⟨no_words, fun _ => trivial⟩⟩
  | call => exact ⟨no_words, fun result => Script.found_utters _ _ _⟩

theorem task_utters (t : Task) (words : ∀ name ∈ t.coined, W name) : t.script.Utters W := by
  cases t with
  | statements ss =>
    cases ss with
    | nil => exact trivial
    | cons s rest =>
      obtain ⟨first, others⟩ := List.forall_mem_append.mp words
      exact ⟨first, Signal.andThen_utters (Script.finish_utters others)⟩
  | statement s => exact stmt_utters s words
  | rounds pos body total i =>
    dsimp only [Task.script]
    split
    · exact ⟨words, Signal.andThen_utters (Script.finish_utters words)⟩
    · exact trivial
  | callRounds pos p total i =>
    dsimp only [Task.script]
    split
    · exact ⟨words, fun _ => Script.finish_utters words⟩
    · exact trivial
  | operand what e =>
    refine ⟨no_words, fun v => ?_⟩
    dsimp only
    split <;> exact trivial
  | expr e => exact expr_utters e
  | arguments es =>
    cases es with
    | nil => exact trivial
    | cons e rest => exact ⟨no_words, fun _ => ⟨no_words, fun _ => trivial⟩⟩
  | call pos name args =>
    refine Script.lookup_utters fun p known => ?_
    split
    · exact ⟨no_words, fun _ => Script.finish_utters known⟩
    · exact trivial
  | invoke p params pos =>
    obtain ⟨-, inside⟩ := List.forall_mem_cons.mp words
    exact ⟨(List.forall_mem_append.mp inside).2, fun signal => Signal.returned_utters _ signal⟩

theorem Script.exec_speaks {α : Type} {ctx : Context}
    {run : (t : Task) → Machine → Outcome t.Result}
    (tasks : ∀ t m after, (∀ name ∈ t.coined, W name) → m.env.Speaks W →
      (run t m).machine? = some after → after.env.Speaks W)
    {script : Script α} {m after : Machine} (utters : script.Utters W) (speaks : m.env.Speaks W)
    (ends : (script.exec ctx run m).machine? = some after) : after.env.Speaks W := by
  induction script generalizing m with
  | done value | fail cause pos =>
    obtain rfl := Option.some.inj ends
    exact speaks
  | step pos next ih =>
    have ticked : m.tick.env.Speaks W := speaks
    simp only [exec] at ends
    rcases Evaluate.step_cases ctx pos m with taken | ⟨cause, refused⟩
    · rw [taken] at ends
      exact ih utters ticked ends
    · rw [refused] at ends
      obtain rfl := Option.some.inj ends
      exact speaks
  | inspect next ih => exact ih m.env (utters m.env speaks) speaks ends
  | change c next ih => exact ih utters.2 (speaks.change utters.1) ends
  | draw limit next ih =>
    simp only [exec] at ends
    obtain ⟨value, random, drawn⟩ := m.drawn_eq limit
    have still : ({ m with random := random } : Machine).env.Speaks W := speaks
    rw [drawn] at ends
    exact ih value (utters value) still ends
  | perform t next ih =>
    simp only [exec] at ends
    obtain ⟨v, mid, result, later⟩ | ⟨e, failure⟩ := Outcome.machine_bind ends
    · exact ih v (utters.2 v) (tasks t m mid utters.1 speaks (by rw [result]; rfl)) later
    · exact tasks t m after utters.1 speaks (by rw [failure]; rfl)
  | enter p params pos next ih =>
    have body : ∀ mid, ((run (.statements p.body) (m.called p params pos)).onMachine
        Machine.leave).machine? = some mid → mid.env.Speaks W := by
      intro mid left
      rw [Outcome.machine_onMachine] at left
      obtain ⟨inside, reached, rfl⟩ := Option.map_eq_some_iff.mp left
      exact (tasks (.statements p.body) _ inside utters.1
        (speaks.called p params pos) reached).leave
    simp only [exec] at ends
    split at ends
    · obtain rfl := Option.some.inj ends
      exact speaks
    · obtain ⟨v, mid, result, later⟩ | ⟨e, failure⟩ := Outcome.machine_bind ends
      · exact ih v (utters.2 v) (body mid (by rw [result]; rfl)) later
      · exact body after (by rw [failure]; rfl)

theorem Task.run_speaks {n : Nat} {ctx : Context} {t : Task} {m after : Machine}
    (words : ∀ name ∈ t.coined, W name) (speaks : m.env.Speaks W)
    (ends : (t.run n ctx m).machine? = some after) : after.env.Speaks W := by
  induction n generalizing t m after with
  | zero => simp [Task.run_zero, Outcome.machine?] at ends
  | succ n ih =>
    rw [Task.run_succ] at ends
    exact Script.exec_speaks (fun _ _ _ words speaks ends => ih words speaks ends)
      (task_utters t words) speaks ends

namespace Session

theorem runWith_speaks {s : Session} {p : Program} (fuel : Nat) (limits : Limits)
    (cancelledFrom : Option Nat) (words : ∀ name ∈ coinedIn p.statements, W name)
    (speaks : s.env.Speaks W) :
    (s.runWith fuel limits cancelledFrom p).session.env.Speaks W := by
  have kept : ∀ after, (s.evaluate fuel limits cancelledFrom p).machine? = some after →
      after.env.Speaks W := fun after ends =>
    Task.run_speaks (t := .statements p.statements) words speaks ends
  unfold runWith
  cases outcome : s.evaluate fuel limits cancelledFrom p with
  | done signal m => exact kept m (by rw [outcome]; rfl)
  | failed e m => exact kept m (by rw [outcome]; rfl)
  | outOfFuel => exact speaks

theorem execWith_speaks {s : Session} {source : Bytes} (fuel : Nat) (limits : Limits)
    (cancelledFrom : Option Nat)
    (words : ∀ p, parse source = .ok p → ∀ name ∈ coinedIn p.statements, W name)
    (speaks : s.env.Speaks W) :
    (s.execWith fuel limits cancelledFrom source).session.env.Speaks W := by
  cases parsed : parse source with
  | error e => rwa [execWith_of_parse_error s fuel limits cancelledFrom parsed]
  | ok p =>
    rw [execWith_of_parse_ok s fuel limits cancelledFrom parsed]
    exact runWith_speaks fuel limits cancelledFrom (words p parsed) speaks

end Session
end TurtleLogo
