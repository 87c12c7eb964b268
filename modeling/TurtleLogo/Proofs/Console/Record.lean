import TurtleLogo.Proofs.Console.Held

/-!
The record of a conversation with the console. What is said to the console falls into chapters: the
lines of a program that was executed, lines that were held back until they were dropped, a command
to the console itself, a blank line. The history lists what was executed and nothing else, and the
session is what the chapters made of it, each in its turn.
-/
namespace TurtleLogo.Console
open Text Files

/-- Lines that have left something open from the first one on. -/
inductive Held : List Bytes → Prop where
  | nothing : Held []
  | line {lines : List Bytes} {line : Bytes} (before : Held lines) (takes : Takes lines line)
      (unfinished : 0 < openDepth (joined [newline] (lines ++ [line]))) : Held (lines ++ [line])

namespace Held
variable {lines : List Bytes}

theorem unfinished (held : Held lines) (nonempty : lines ≠ []) :
    0 < openDepth (joined [newline] lines) := by
  cases held with
  | nothing => contradiction
  | line before takes unfinished => exact unfinished

theorem begins (held : Held lines) (nonempty : lines ≠ []) :
    ∃ first rest, lines = first :: rest ∧ trim first ≠ [] ∧ first.head? ≠ .some (byte ':') := by
  induction held with
  | nothing => contradiction
  | @line before line held takes unfinished ih =>
    cases before with
    | nil =>
      obtain ⟨full, statement⟩ := takes.begins rfl
      exact ⟨line, [], rfl, by rwa [takes.trimmed], statement⟩
    | cons first rest =>
      obtain ⟨_, _, same, full, statement⟩ := ih nofun
      cases same
      exact ⟨first, rest ++ [line], rfl, full, statement⟩

end Held

/-- A stretch of a conversation behind which nothing is held back. -/
inductive Chapter where
  | executed (lines : List Bytes) (line : Bytes) (before : Held lines) (takes : Takes lines line)
      (finished : ¬0 < openDepth (joined [newline] (lines ++ [line])))
  | dropped (lines : List Bytes) (held : Held lines)
  | command (line : Bytes) (colon : line.head? = some (byte ':'))
  | blank

namespace Chapter

def said : Chapter → List Said
  | executed lines line _ _ _ => (lines ++ [line]).map .line
  | dropped lines _ => lines.map .line ++ [.drop]
  | command line _ => [.line line]
  | blank => [.line []]

def source? : Chapter → Option Bytes
  | executed lines line _ _ _ => some (joined [newline] (lines ++ [line]))
  | dropped _ _ | command _ _ | blank => none

def leaves (session : Session) : Chapter → Session
  | executed lines line _ _ _ =>
    (session.exec .none false (joined [newline] (lines ++ [line]))).session
  | command line _ => commanded session line
  | dropped _ _ | blank => session

end Chapter

namespace State

/-- The conversations from the start on, with what was said in them and the state they come to. -/
inductive Conversation (random : Random.Stream) : List Said → State → Prop where
  | start : Conversation random [] (start random)
  | acted {log : List Said} {s : State} {step : Step} {left : FileSystem} (a : Action)
      (fs : FileSystem) (before : Conversation random log s)
      (ran : (s.act a).on fs = .ok (step, left)) :
      Conversation random (log ++ s.said a) step.state

theorem Reached.conversation {random : Random.Stream} {s : State} (reached : s.Reached random) :
    ∃ log, s.Conversation random log := by
  induction reached with
  | start => exact ⟨[], .start⟩
  | acted a fs before ran ih =>
    obtain ⟨log, talk⟩ := ih
    exact ⟨_, .acted a fs talk ran⟩

variable {s : State}

structure Sound (s : State) : Prop where
  prompt : s.pending ≠ [] ↔ s.prompt = .continued
  held : Held s.pending
  recalls : s.Recalls

theorem Sound.agreeing {after : State} (sound : s.Sound) (agrees : s.Agrees after)
    (recalls : after.Recalls) : after.Sound := by
  refine ⟨?_, ?_, recalls⟩
  · rw [agrees.pending, agrees.prompt]
    exact sound.prompt
  · rw [agrees.pending]
    exact sound.held

theorem sound_fresh (emptied : s.pending = []) (prompted : s.prompt = .fresh)
    (recalls : s.Recalls) : s.Sound := by
  refine ⟨?_, ?_, recalls⟩
  · simp [emptied, prompted]
  · rw [emptied]
    exact .nothing

theorem recalls_of_none (cleared : s.recalled = none) : s.Recalls := by
  intro i recalled
  rw [cleared] at recalled
  cases recalled

theorem Sound.enterLine {line : Bytes} (sound : s.Sound) (takes : Takes s.pending line)
    (cleared : s.recalled = none) : (s.enterLine line).Sound := by
  by_cases unfinished : 0 < openDepth (joined [newline] (s.pending ++ [line]))
  · rw [enterLine_of_open unfinished]
    refine ⟨?_, ?_, recalls_of_none cleared⟩
    · simp
    · exact .line sound.held takes unfinished
  · rw [enterLine_of_closed unfinished]
    exact sound_fresh rfl rfl (recalls_of_none cleared)

theorem Turn.sound {told : List Said} {after : State} (turn : Turn s told after)
    (sound : s.Sound) : after.Sound := by
  cases turn with
  | quiet agrees recalls => exact sound.agreeing agrees (recalls sound.recalls)
  | drop =>
    unfold dropPending
    split
    · exact sound
    · exact sound_fresh rfl rfl sound.recalls
  | blank fresh => exact sound.agreeing ⟨rfl, rfl, rfl, rfl⟩ (recalls_of_none rfl)
  | @command line _ fresh entered colon agrees cleared =>
    have before : { s with session := commanded s.session line }.Sound :=
      ⟨sound.prompt, sound.held, sound.recalls⟩
    exact before.agreeing agrees (recalls_of_none cleared)
  | line entered takes =>
    have taken : s.taken.Sound := sound.agreeing ⟨rfl, rfl, rfl, rfl⟩ (recalls_of_none rfl)
    exact taken.enterLine takes rfl

/-- What was said is told by chapters and the lines that are held back. The history has the source
    texts of the chapters and the session is what they leave. -/
structure Accounts (random : Random.Stream) (log : List Said) (s : State)
    (chapters : List Chapter) : Prop where
  said : log = chapters.flatMap Chapter.said ++ s.pending.map .line
  history : s.history = chapters.filterMap Chapter.source?
  session : s.session = chapters.foldl Chapter.leaves (Session.start random)

section
variable {random : Random.Stream} {log told : List Said} {after : State} {chapters : List Chapter}

/-- A turn can end a chapter, which then has the lines that were held back and what was said. -/
theorem Accounts.chapter (accounts : Accounts random log s chapters) (chapter : Chapter)
    (whole : chapter.said = s.pending.map .line ++ told) (emptied : after.pending = [])
    (history : after.history = s.history ++ chapter.source?.toList)
    (session : after.session = chapter.leaves s.session) :
    Accounts random (log ++ told) after (chapters ++ [chapter]) := by
  constructor
  · rw [accounts.said, emptied, List.flatMap_append, List.flatMap_singleton, whole]
    simp
  · rw [history, accounts.history, List.filterMap_append]
    cases executed : chapter.source? <;> simp [executed]
  · rw [session, accounts.session, List.foldl_append]
    rfl

theorem Turn.accounts (turn : Turn s told after) (sound : s.Sound)
    (accounts : Accounts random log s chapters) :
    ∃ chapters, Accounts random (log ++ told) after chapters := by
  cases turn with
  | quiet agrees recalls =>
    refine ⟨chapters, ?_, ?_, ?_⟩
    · rw [agrees.pending, List.append_nil]
      exact accounts.said
    · rw [agrees.history]
      exact accounts.history
    · rw [agrees.session]
      exact accounts.session
  | drop =>
    obtain ⟨emptied, history, session⟩ := s.dropPending_drops
    exact ⟨_, accounts.chapter (.dropped s.pending sound.held) rfl emptied
      (history.trans (List.append_nil _).symm) session⟩
  | blank fresh =>
    exact ⟨_, accounts.chapter .blank (by rw [fresh]; rfl) fresh (List.append_nil _).symm rfl⟩
  | command fresh entered colon agrees cleared =>
    refine ⟨_, accounts.chapter (.command _ colon) ?_ ?_ ?_ agrees.session⟩
    · rw [fresh]
      rfl
    · exact agrees.pending.trans fresh
    · exact agrees.history.trans (List.append_nil _).symm
  | @line line entered takes =>
    by_cases unfinished : 0 < openDepth (joined [newline] (s.pending ++ [line]))
    · rw [enterLine_of_open (s := s.taken) unfinished]
      refine ⟨chapters, ?_, accounts.history, accounts.session⟩
      rw [accounts.said]
      simp [taken]
    · rw [enterLine_of_closed (s := s.taken) unfinished]
      exact ⟨_, accounts.chapter (.executed s.pending line sound.held takes unfinished)
        List.map_append rfl rfl rfl⟩

theorem Turn.session_changes (turn : Turn s told after) (changed : after.session ≠ s.session) :
    (∃ line, told = [.line line]) ∧
      ((after.history = s.history ++ [s.entered] ∧
          after.session = (s.session.exec .none false s.entered).session) ∨
        (s.pending = [] ∧
          isNamed ((words (trim s.input.text)).headD []) ":reset" ":r" = true ∧
          after.history = s.history ∧ after.session = s.session.reset)) := by
  cases turn with
  | quiet agrees recalls => exact absurd agrees.session changed
  | drop => exact absurd s.dropPending_drops.2.2 changed
  | blank fresh => exact absurd rfl changed
  | @command line _ fresh entered colon agrees cleared =>
    refine ⟨⟨line, rfl⟩, .inr ?_⟩
    have session := agrees.session
    dsimp only at session
    by_cases resets : isNamed ((words line).headD []) ":reset" ":r" = true
    · rw [commanded, if_pos resets] at session
      rw [entered]
      exact ⟨fresh, resets, agrees.history, session⟩
    · rw [commanded_of_not_reset resets] at session
      contradiction
  | @line line entered takes =>
    refine ⟨⟨line, rfl⟩, .inl ?_⟩
    by_cases unfinished : 0 < openDepth (joined [newline] (s.pending ++ [line]))
    · rw [enterLine_of_open (s := s.taken) unfinished] at changed
      exact absurd rfl changed
    · rw [enterLine_of_closed (s := s.taken) unfinished, State.entered, entered]
      exact ⟨rfl, rfl⟩

theorem Conversation.sound (talk : Conversation random log s) : s.Sound := by
  induction talk with
  | start => exact sound_fresh rfl rfl (recalls_of_none rfl)
  | acted a fs before ran ih => exact ((act_turn _ a).on ran).sound ih

theorem Conversation.accounts (talk : Conversation random log s) :
    ∃ chapters, Accounts random log s chapters := by
  induction talk with
  | start => exact ⟨[], rfl, rfl, rfl⟩
  | acted a fs before ran ih =>
    obtain ⟨chapters, accounts⟩ := ih
    exact ((act_turn _ a).on ran).accounts before.sound accounts

end

theorem key_of_said_line {a : Action} {line : Bytes} (told : s.said a = [.line line]) :
    a.key? = some .enter := by
  rw [said] at told
  split at told
  · assumption
  · cases told
  · cases told

/-- In every conversation the prompt tells whether lines are held back. They leave something open,
    and the first of them is neither blank nor a command. What was recalled is in the history. All
    that was said is in chapters and the lines held back: the history lists the source texts of the
    chapters, in order, and the session is what the chapters leave, one after the other. And only by
    entering a line can an action change the session, to execute what is then complete or to reset
    it. -/
theorem conversations_are_recorded :
    (∀ (random : Random.Stream) (log : List Said) (s : State), Conversation random log s →
      (s.pending ≠ [] ↔ s.prompt = .continued) ∧
      (s.pending ≠ [] → 0 < openDepth (joined [newline] s.pending) ∧
        ∃ first rest, s.pending = first :: rest ∧ trim first ≠ [] ∧
          first.head? ≠ some (byte ':')) ∧
      (∀ i, s.recalled = some i → i < s.history.length) ∧
      ∃ chapters : List Chapter,
        log = chapters.flatMap Chapter.said ++ s.pending.map .line ∧
        s.history = chapters.filterMap Chapter.source? ∧
        s.session = chapters.foldl Chapter.leaves (Session.start random)) ∧
    ∀ (s : State) (a : Action) (fs left : FileSystem) (step : Step),
      (s.act a).on fs = .ok (step, left) → step.state.session ≠ s.session →
      a.key? = some .enter ∧
        ((step.state.history = s.history ++ [s.entered] ∧
            step.state.session = (s.session.exec .none false s.entered).session) ∨
          (s.pending = [] ∧
            isNamed ((words (trim s.input.text)).headD []) ":reset" ":r" = true ∧
            step.state.history = s.history ∧ step.state.session = s.session.reset)) := by
  constructor
  · intro random log s talk
    have sound := talk.sound
    obtain ⟨chapters, said, history, session⟩ := talk.accounts
    refine ⟨sound.prompt, ?_, sound.recalls, chapters, said, history, session⟩
    intro holding
    exact ⟨sound.held.unfinished holding, sound.held.begins holding⟩
  · intro s a fs left step ran changed
    obtain ⟨⟨line, told⟩, executed⟩ := ((act_turn s a).on ran).session_changes changed
    exact ⟨key_of_said_line told, executed⟩

def headerClosed : State := headerHeld.ready.execute headerHeld.entered

set_option maxRecDepth 100000 in
/-- The header of a procedure is said and held back. With the rest of the procedure it is one
    chapter, which changes the session. -/
theorem conversations_are_recorded_of_header :
    Conversation ⟨0, 0⟩ [.line (utf8 "to f")] headerHeld ∧ headerHeld.prompt = .continued ∧
      0 < openDepth (utf8 "to f") ∧
      (∃ chapters : List Chapter,
        [.line (utf8 "to f")] = chapters.flatMap Chapter.said ++ [.line (utf8 "to f")] ∧
        [] = chapters.filterMap Chapter.source?) ∧
      (headerHeld.act (.press .enter)).on ⟨[], []⟩ = .ok (headerClosed.stay, ⟨[], []⟩) ∧
      headerClosed.session ≠ headerHeld.session ∧
      headerClosed.history = headerHeld.history ++ [headerHeld.entered] ∧
      headerClosed.session =
        (headerHeld.session.exec .none false headerHeld.entered).session ∧
      Conversation ⟨0, 0⟩ [.line (utf8 "to f"), .line (utf8 "pu end")] headerClosed ∧
      ∃ chapters : List Chapter,
        [.line (utf8 "to f"), .line (utf8 "pu end")] = chapters.flatMap Chapter.said ∧
        [utf8 "to f\npu end"] = chapters.filterMap Chapter.source? ∧
        headerClosed.session = chapters.foldl Chapter.leaves (Session.start ⟨0, 0⟩) := by
  have typed : Conversation ⟨0, 0⟩ [] _ := .acted (.setInput (utf8 "to f")) ⟨[], []⟩ .start rfl
  have submitted : Conversation ⟨0, 0⟩ [.line (utf8 "to f")] _ :=
    .acted (.press .enter) ⟨[], []⟩ typed rfl
  have talk : Conversation ⟨0, 0⟩ [.line (utf8 "to f")] headerHeld :=
    .acted (.setInput (utf8 "pu end")) ⟨[], []⟩ submitted rfl
  have entering : (headerHeld.act (.press .enter)).on ⟨[], []⟩ =
      .ok (headerClosed.stay, ⟨[], []⟩) := rfl
  obtain ⟨changed, emptied, listed⟩ : headerClosed.session ≠ headerHeld.session ∧
      headerClosed.pending = [] ∧ headerClosed.history = [utf8 "to f\npu end"] := by
    decide +kernel
  have whole : Conversation ⟨0, 0⟩ [.line (utf8 "to f"), .line (utf8 "pu end")] headerClosed :=
    .acted (.press .enter) ⟨[], []⟩ talk entering
  obtain ⟨recorded, changes⟩ := conversations_are_recorded
  obtain ⟨prompt, held, -, chapters, said, history, -⟩ := recorded _ _ _ talk
  obtain ⟨-, executed | reset⟩ := changes _ _ _ _ _ entering changed
  · obtain ⟨-, -, -, all, told, sources, left⟩ := recorded _ _ _ whole
    rw [emptied, List.map_nil, List.append_nil] at told
    rw [listed] at sources
    exact ⟨talk, prompt.mp nofun, (held nofun).1, ⟨chapters, said, history⟩, entering, changed,
      executed.1, executed.2, whole, all, told, sources, left⟩
  · exact absurd reset.1 nofun

end State
end TurtleLogo.Console
