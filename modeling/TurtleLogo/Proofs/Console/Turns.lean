import TurtleLogo.Console.State
import TurtleLogo.Proofs.Files.Plan
import TurtleLogo.Proofs.Text.Trim

/-!
What an action can do to the console. It tells the console a line, or to drop what it holds back, or
it tells nothing. A command leaves everything alone but what is shown, and the session if it is
reset; so whatever an action is, what it changes of the lines, the history and the session can be
told from what it says.
-/
namespace TurtleLogo.Console
open Text Files

inductive Said where
  | line (text : Bytes)
  | drop

def Action.key? : Action → Option Key
  | press key => some key
  | type text => Key.named? text
  | setInput _ | resize _ _ => none

/-- A line that belongs to a program: one with others before it, or one that is neither blank nor a
    command. -/
structure Takes (lines : List Bytes) (line : Bytes) : Prop where
  trimmed : trim line = line
  begins : lines = [] → line ≠ [] ∧ line.head? ≠ some (byte ':')

def commanded (session : Session) (line : Bytes) : Session :=
  if State.isNamed ((words line).headD []) ":reset" ":r" then session.reset else session

namespace State

def said (s : State) (a : Action) : List Said :=
  match a.key? with
  | some .enter => [.line (trim s.input.text)]
  | some .escape => [.drop]
  | _ => []

def taken (s : State) : State := { s with input := s.input.set [], recalled := none }

/-- What a command leaves alone: everything but the session and what is shown. -/
structure Framed (s after : State) : Prop where
  input : after.input = s.input
  prompt : after.prompt = s.prompt
  history : after.history = s.history
  recalled : after.recalled = s.recalled
  pending : after.pending = s.pending
  window : after.window = s.window

/-- The states agree on everything that is recorded. -/
structure Agrees (s after : State) : Prop where
  pending : after.pending = s.pending
  prompt : after.prompt = s.prompt
  history : after.history = s.history
  session : after.session = s.session

def Recalls (s : State) : Prop := ∀ i, s.recalled = some i → i < s.history.length

/-- What an action can do to a state, with what it says. -/
inductive Turn (s : State) : List Said → State → Prop where
  | quiet {after : State} (agrees : s.Agrees after) (recalls : s.Recalls → after.Recalls) :
      Turn s [] after
  | drop : Turn s [.drop] s.dropPending
  | blank (fresh : s.pending = []) : Turn s [.line []] s.taken
  | command {line : Bytes} {after : State} (fresh : s.pending = [])
      (entered : trim s.input.text = line) (colon : line.head? = some (byte ':'))
      (agrees : { s with session := commanded s.session line }.Agrees after)
      (cleared : after.recalled = none) : Turn s [.line line] after
  | line {line : Bytes} (entered : trim s.input.text = line) (takes : Takes s.pending line) :
      Turn s [.line line] (s.taken.enterLine line)

variable {s : State} {line : Bytes}

theorem submit_eq (s : State) : s.submit =
    if s.pending.isEmpty && (trim s.input.text).isEmpty then pure s.taken.stay
    else if s.pending.isEmpty && (trim s.input.text).head? == some (byte ':') then
      s.taken.perform (trim s.input.text)
    else pure (s.taken.enterLine (trim s.input.text)).stay := by
  rw [submit]
  rfl

theorem commanded_of_not_reset {session : Session} {line : Bytes}
    (other : isNamed ((words line).headD []) ":reset" ":r" ≠ true) :
    commanded session line = session :=
  if_neg other

theorem commanded_of_named {session : Session} {line : Bytes} {long short : String}
    (named : isNamed ((words line).headD []) long short = true)
    (apart : isNamed (utf8 long) ":reset" ":r" ≠ true ∧ isNamed (utf8 short) ":reset" ":r" ≠ true) :
    commanded session line = session := by
  apply commanded_of_not_reset
  rw [isNamed, Bool.or_eq_true, beq_iff_eq, beq_iff_eq] at named
  rcases named with long | short
  · rw [long]
    exact apart.1
  · rw [short]
    exact apart.2

theorem save_framed (s : State) (line : Bytes) (path : Path) :
    (s.save line path).Always fun after => s.Framed after ∧ after.session = s.session := by
  apply Plan.Always.write
  intro written
  cases written <;> exact .done ⟨⟨rfl, rfl, rfl, rfl, rfl, rfl⟩, rfl⟩

theorem perform_framed (s : State) (line : Bytes) :
    (s.perform line).Always fun step =>
      s.Framed step.state ∧ step.state.session = commanded s.session line := by
  -- The commands that come before resetting are named otherwise, so they leave the session.
  have shown : ∀ {after : State} {long short : String}, s.Framed after → after.session = s.session →
      isNamed ((words line).headD []) long short = true →
      (isNamed (utf8 long) ":reset" ":r" ≠ true ∧ isNamed (utf8 short) ":reset" ":r" ≠ true) →
      s.Framed after ∧ after.session = commanded s.session line := by
    intro after long short framed session named apart
    rw [commanded_of_named named apart]
    exact ⟨framed, session⟩
  unfold perform
  dsimp only
  split
  · next quits => exact .pure (shown ⟨rfl, rfl, rfl, rfl, rfl, rfl⟩ rfl quits (by decide))
  split
  · next helps => exact .pure (shown ⟨rfl, rfl, rfl, rfl, rfl, rfl⟩ rfl helps (by decide))
  split
  · next lists => exact .pure (shown ⟨rfl, rfl, rfl, rfl, rfl, rfl⟩ rfl lists (by decide))
  split
  · next draws => exact .pure (shown ⟨rfl, rfl, rfl, rfl, rfl, rfl⟩ rfl draws (by decide))
  split
  · next clears => exact .pure (shown ⟨rfl, rfl, rfl, rfl, rfl, rfl⟩ rfl clears (by decide))
  split
  · next resets => exact .pure ⟨⟨rfl, rfl, rfl, rfl, rfl, rfl⟩, (if_pos resets).symm⟩
  next other =>
  rw [commanded_of_not_reset other]
  split
  · exact (s.save_framed line _).bind fun _ framed => .pure framed
  · exact .pure ⟨⟨rfl, rfl, rfl, rfl, rfl, rfl⟩, rfl⟩

theorem dropPending_drops (s : State) :
    s.dropPending.pending = [] ∧ s.dropPending.history = s.history ∧
      s.dropPending.session = s.session := by
  unfold dropPending
  split
  · next empty => exact ⟨List.isEmpty_iff.mp empty, rfl, rfl⟩
  · exact ⟨rfl, rfl, rfl⟩

theorem recallAt_agrees (s : State) (index : Nat) : s.Agrees (s.recallAt index) := by
  unfold recallAt
  split <;> exact ⟨rfl, rfl, rfl, rfl⟩

theorem recallAt_recalls (s : State) (index : Nat) : (s.recallAt index).Recalls := by
  intro i recalled
  unfold recallAt at recalled ⊢
  split at recalled
  · next source found =>
    cases recalled
    exact (List.getElem?_eq_some_iff.mp found).1
  · cases recalled

theorem recallOlder_turn (s : State) : Turn s [] s.recallOlder := by
  unfold recallOlder
  split
  · exact .quiet ⟨rfl, rfl, rfl, rfl⟩ id
  · split <;> exact .quiet (recallAt_agrees ..) fun _ => recallAt_recalls _ _

theorem recallNewer_turn (s : State) : Turn s [] s.recallNewer := by
  unfold recallNewer
  split
  · exact .quiet ⟨rfl, rfl, rfl, rfl⟩ id
  · exact .quiet (recallAt_agrees ..) fun _ => recallAt_recalls _ _

theorem complete_turn (s : State) : Turn s [] s.complete := by
  unfold complete
  dsimp only
  split
  · exact .quiet ⟨rfl, rfl, rfl, rfl⟩ id
  · split <;> exact .quiet ⟨rfl, rfl, rfl, rfl⟩ id

theorem submit_turn (s : State) :
    s.submit.Always fun step => Turn s [.line (trim s.input.text)] step.state := by
  rw [submit_eq]
  by_cases fresh : s.pending = []
  · by_cases blank : trim s.input.text = []
    · rw [if_pos (by simp [fresh, blank]), blank]
      exact .pure (.blank fresh)
    · rw [if_neg (by simp [blank])]
      by_cases colon : (trim s.input.text).head? = some (byte ':')
      · rw [if_pos (by simp [fresh, colon])]
        apply (s.taken.perform_framed _).mono
        intro step ⟨framed, session⟩
        refine .command fresh rfl colon ?_ framed.recalled
        refine ⟨framed.pending, framed.prompt, framed.history, ?_⟩
        dsimp only
        exact session
      · rw [if_neg (by simp [colon])]
        exact .pure (.line rfl ⟨trim_trim _, fun _ => ⟨blank, colon⟩⟩)
  · rw [if_neg (by simp [fresh]), if_neg (by simp [fresh])]
    exact .pure (.line rfl ⟨trim_trim _, fun empty => absurd empty fresh⟩)

theorem press_turn (s : State) (key : Key) :
    (s.press key).Always fun step => Turn s (s.said (.press key)) step.state := by
  cases key with
  | enter => exact s.submit_turn
  | escape => exact .pure .drop
  | up => exact .pure s.recallOlder_turn
  | down => exact .pure s.recallNewer_turn
  | tab => exact .pure s.complete_turn
  | quit | clear | bindings | help | canvas => exact .pure (.quiet ⟨rfl, rfl, rfl, rfl⟩ id)

theorem act_turn (s : State) (a : Action) :
    (s.act a).Always fun step => Turn s (s.said a) step.state := by
  cases a with
  | setInput text => exact .pure (.quiet ⟨rfl, rfl, rfl, rfl⟩ id)
  | resize width height => exact .pure (.quiet ⟨rfl, rfl, rfl, rfl⟩ id)
  | press key => exact s.press_turn key
  | type text =>
    rw [act]
    cases named : Key.named? text with
    | some key =>
      have same : s.said (.type text) = s.said (.press key) := by
        rw [said, said, Action.key?, Action.key?, named]
      rw [same]
      exact s.press_turn key
    | none =>
      have silent : s.said (.type text) = [] := by
        rw [said, Action.key?, named]
      rw [silent]
      apply (Plan.always_of_forall (fun _ => trivial) _).bind
      intro line _
      exact .pure (.quiet ⟨rfl, rfl, rfl, rfl⟩ id)

end State
end TurtleLogo.Console
