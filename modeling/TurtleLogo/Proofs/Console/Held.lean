import TurtleLogo.Proofs.Console.Turns
import TurtleLogo.Proofs.Parse.Concatenated
import TurtleLogo.Proofs.Parse.Nesting
import TurtleLogo.Proofs.Scan.Solid

/-!
What the console holds back. A text is held back while it opens more blocks than it closes, and an
accepted program closes what it opens. So a text that is held back is no program yet, and the line
that makes it one is executed at once.
-/
namespace TurtleLogo
open Text

theorem openDepth_eq (source : Bytes) :
    openDepth source = nestingOf (tokenKinds source) := by
  have folded : ∀ (ts : List Token) (depth : Int),
      ts.foldl (fun depth t => depth + t.kind.nesting) depth =
        depth + nestingOf (ts.map Token.kind) := by
    intro ts
    induction ts with
    | nil => simp
    | cons t ts ih =>
      intro depth
      rw [List.foldl_cons, ih, List.map_cons, nestingOf_cons, Int.add_assoc]
  rw [openDepth, folded, Int.zero_add, tokenKinds]

theorem openDepth_of_accepted {source : Bytes} {p : Program} (accepted : parse source = .ok p) :
    openDepth source = 0 := by
  rw [openDepth_eq]
  exact (tokens_nested accepted).nesting_eq_zero

theorem rejected_of_open {source : Bytes} (unfinished : 0 < openDepth source) :
    ∃ e, parse source = .error e := by
  cases parsed : parse source with
  | error e => exact ⟨e, rfl⟩
  | ok p =>
    have closed := openDepth_of_accepted parsed
    omega

namespace Scan

theorem longestMatch_colon (rest : Bytes) :
    (longestMatch (byte ':' :: rest)).width = 0 ∨
      (longestMatch (byte ':' :: rest)).kind = .paramName := by
  have only : longestMatch (byte ':' :: rest) =
      Match.longer (byte ':' :: rest) ⟨.illegal, 0⟩ ⟨.paramName, sigilWidth (byte ':')⟩ := rfl
  rw [only, Match.longer]
  split
  · exact .inr rfl
  · exact .inl rfl

theorem solid_colon {rest : Bytes} (legal : Legal (byte ':' :: rest)) :
    ∃ p ps, solid (byte ':' :: rest) = p :: ps ∧ p.kind = .paramName := by
  have some_width : (longestMatch (byte ':' :: rest)).width ≠ 0 := by
    intro unmatched
    exact illegal_of_no_match unmatched legal
  have kind := (longestMatch_colon rest).resolve_left some_width
  rw [solid, pieces_cons, if_neg some_width,
    List.filter_cons_of_pos (by rw [Piece.isSolid, kind]; rfl)]
  exact ⟨_, _, rfl, kind⟩

end Scan

theorem colon_rejected (rest : Bytes) (p : Program) : parse (byte ':' :: rest) ≠ .ok p := by
  intro accepted
  obtain ⟨clean, read, -⟩ := parse_eq_ok_iff.mp accepted
  have legal := (tokenize_errors _).mp clean
  obtain ⟨piece, pieces, first, kind⟩ := Scan.solid_colon legal
  have tokens := tokenize_tokens legal
  rw [first] at tokens
  obtain ⟨t, ts, lexed, same, -⟩ := List.map_eq_cons_iff.mp tokens
  have ends := Parse.ends_of_topLevel (Nat.lt_succ_self _) read
  have head : headKind (Cursor.ofLexed (tokenize (byte ':' :: rest))).rest = .paramName := by
    rw [Cursor.ofLexed, lexed, ← kind, ← same]
    rfl
  rw [head] at ends
  exact absurd ends (by decide)

namespace Session

theorem exec_nothing (limits : Limits) (s : Session) : (s.exec limits false []).session = s := by
  have read : parse [] = .ok ⟨[], []⟩ := rfl
  obtain ⟨fuel, ample⟩ : ∃ n, ampleFuel = n + 1 := Nat.exists_eq_succ_of_ne_zero (by decide)
  rw [exec, execWith, read, ample]
  rfl

end Session

namespace Console.State
variable {s : State} {line : Bytes}

theorem enterLine_of_open (unfinished : 0 < openDepth (joined [newline] (s.pending ++ [line]))) :
    s.enterLine line = { s with pending := s.pending ++ [line], prompt := .continued } :=
  if_pos unfinished

theorem enterLine_of_closed (finished : ¬0 < openDepth (joined [newline] (s.pending ++ [line]))) :
    s.enterLine line = { s with pending := [], prompt := .fresh }.execute
      (joined [newline] (s.pending ++ [line])) :=
  if_neg finished

def entered (s : State) : Bytes := joined [newline] (s.pending ++ [trim s.input.text])

theorem entered_fresh (fresh : s.pending = []) : s.entered = trim s.input.text := by
  rw [entered, fresh]
  simp [joined]

def ready (s : State) : State := { s.taken with pending := [], prompt := .fresh }

/-- A submitted program is executed at once. Only a blank line is not, which has nothing to execute
    if nothing is held back. -/
theorem submit_program {p : Program} (accepted : parse s.entered = .ok p) :
    ∃ after : State, s.submit = pure after.stay ∧ after.pending = [] ∧
      after.session = (s.session.exec .none false s.entered).session ∧
      (s.entered ≠ [] → after = s.ready.execute s.entered) := by
  have finished : ¬0 < openDepth s.entered := by
    rw [openDepth_of_accepted accepted]
    omega
  have took : s.taken.enterLine (trim s.input.text) = s.ready.execute s.entered :=
    enterLine_of_closed finished
  by_cases held : s.pending = []
  · cases text : trim s.input.text with
    | nil =>
      have nothing : s.entered = [] := by rw [entered_fresh held, text]
      refine ⟨s.taken, ?_, held, ?_, ?_⟩
      · simp [submit_eq, held, text]
      · rw [nothing, Session.exec_nothing, taken]
      · intro entered
        exact absurd nothing entered
    | cons b rest =>
      have statement : b ≠ byte ':' := by
        rintro rfl
        rw [entered_fresh held, text] at accepted
        exact colon_rejected rest p accepted
      refine ⟨_, ?_, rfl, rfl, fun _ => rfl⟩
      rw [← took]
      simp [submit_eq, held, text, statement]
  · refine ⟨_, ?_, rfl, rfl, fun _ => rfl⟩
    rw [← took]
    simp [submit_eq, held]

end Console.State

/-! What is held back in the course of a conversation. -/

namespace Console.State

/-- The states of a console that is used from its start on, whatever becomes of the files in
    between. -/
inductive Reached (random : Random.Stream) : State → Prop where
  | start : Reached random (start random)
  | acted {s : State} {step : Step} {left : Files.FileSystem} (a : Action)
      (fs : Files.FileSystem) (before : Reached random s)
      (ran : (s.act a).on fs = .ok (step, left)) :
      Reached random step.state

def after? (s : State) : List Action → Option State
  | [] => some s
  | a :: rest =>
    match (s.act a).on ⟨[], []⟩ with
    | .ok (step, _) => step.state.after? rest
    | .error _ => none

theorem Reached.after {random : Random.Stream} {s after : State} {actions : List Action}
    (reached : s.Reached random) (acted : after ∈ s.after? actions) : after.Reached random := by
  induction actions generalizing s with
  | nil =>
    obtain rfl := Option.some.inj acted
    exact reached
  | cons a rest ih =>
    rw [Option.mem_def, after?] at acted
    split at acted
    next ran => exact ih (.acted a ⟨[], []⟩ reached ran) acted
    next => cases acted

/-- What is held back leaves something open. -/
def HoldsUnfinished (s : State) : Prop :=
  s.pending ≠ [] → 0 < openDepth (joined [newline] s.pending)

variable {s : State}

theorem HoldsUnfinished.of_pending_eq {after : State} (same : after.pending = s.pending)
    (holds : s.HoldsUnfinished) : after.HoldsUnfinished := by
  rw [HoldsUnfinished, same]
  exact holds

theorem holdsUnfinished_of_empty (empty : s.pending = []) : s.HoldsUnfinished :=
  fun held => absurd empty held

theorem enterLine_holdsUnfinished (s : State) (line : Bytes) :
    (s.enterLine line).HoldsUnfinished := by
  by_cases unfinished : 0 < openDepth (joined [newline] (s.pending ++ [line]))
  · rw [enterLine_of_open unfinished]
    exact fun _ => unfinished
  · rw [enterLine_of_closed unfinished]
    exact holdsUnfinished_of_empty rfl

theorem Turn.holdsUnfinished {told : List Said} {after : State} (turn : Turn s told after)
    (holds : s.HoldsUnfinished) : after.HoldsUnfinished := by
  cases turn with
  | quiet agrees recalls => exact holds.of_pending_eq agrees.pending
  | drop => exact holdsUnfinished_of_empty s.dropPending_drops.1
  | blank fresh => exact holdsUnfinished_of_empty fresh
  | command fresh entered colon agrees cleared =>
    exact holdsUnfinished_of_empty (agrees.pending.trans fresh)
  | line entered takes => exact enterLine_holdsUnfinished s.taken _

theorem Reached.holdsUnfinished {random : Random.Stream} (reached : Reached random s) :
    s.HoldsUnfinished := by
  induction reached with
  | start => exact holdsUnfinished_of_empty rfl
  | acted a fs before ran ih => exact ((act_turn _ a).on ran).holdsUnfinished ih

end Console.State

/-- Grammar, parser and console agree on what is open. What is accepted is nested, the parser holds
    open what the tokens before leave open, and nothing is open at the end. So the console holds
    back no program, and executes one as soon as it is complete. -/
theorem accepted_programs_are_nested :
    (∀ (source : Bytes) (p : Program), parse source = .ok p →
      Nested (tokenKinds source) ∧ nestingOf (tokenKinds source) = 0 ∧ openDepth source = 0 ∧
        (∀ k, 0 ≤ nestingOf ((tokenKinds source).take k) ∧
          LeavesOpen ((tokenKinds source).take k)
            (Cursor.advance^[k] (Cursor.ofLexed (tokenize source))).opened) ∧
        ∀ xs c, (Cursor.ofLexed (tokenize source)).Reads xs c →
          ∃ k, c.rest = (tokenize source).tokens.drop k ∧
            LeavesOpen ((tokenKinds source).take k) c.opened) ∧
    (∀ source : Bytes, 0 < openDepth source → ∃ e, parse source = .error e) ∧
    (∀ (random : Random.Stream) (s : Console.State), s.Reached random → s.pending ≠ [] →
      0 < openDepth (joined [newline] s.pending) ∧
        ∃ e, parse (joined [newline] s.pending) = .error e) ∧
    ∀ (s : Console.State) (p : Program), parse s.entered = .ok p →
      ∃ after : Console.State, s.submit = pure after.stay ∧ after.pending = [] ∧
        after.session = (s.session.exec .none false s.entered).session ∧
        (s.entered ≠ [] → after = s.ready.execute s.entered) := by
  refine ⟨?_, ?_, ?_, ?_⟩
  · intro source p accepted
    have nested := tokens_nested accepted
    refine ⟨nested, nested.nesting_eq_zero, openDepth_of_accepted accepted, ?_, ?_⟩
    · intro k
      have leaves := advance_leavesOpen accepted k
      constructor
      · rw [leaves.nesting_eq]
        omega
      · exact leaves
    · intro xs c reads
      exact reads_leavesOpen accepted reads
  · intro source unfinished
    exact rejected_of_open unfinished
  · intro random s reached held
    have unfinished := Console.State.Reached.holdsUnfinished reached held
    exact ⟨unfinished, rejected_of_open unfinished⟩
  · intro s p accepted
    exact Console.State.submit_program accepted

deriving instance DecidableEq for Console.State

def headerHeld : Console.State :=
  { Console.State.start ⟨0, 0⟩ with
    prompt := .continued, pending := [utf8 "to f"],
    input := Console.Line.empty.set (utf8 "pu end") }

set_option maxRecDepth 100000 in
/-- The header of a procedure is held back, and with the rest of the procedure it is executed. -/
theorem accepted_programs_are_nested_of_two_lines :
    headerHeld.Reached ⟨0, 0⟩ ∧ headerHeld.pending ≠ [] ∧
      (∃ e, parse (utf8 "to f") = .error e) ∧
      ∃ p, parse headerHeld.entered = .ok p ∧ Nested (tokenKinds headerHeld.entered) ∧
        LeavesOpen ((tokenKinds headerHeld.entered).take 1) [.define] ∧
        ∃ after : Console.State, headerHeld.submit = pure after.stay ∧ after.pending = [] ∧
          after = headerHeld.ready.execute headerHeld.entered := by
  obtain ⟨nested, -, held, executed⟩ := accepted_programs_are_nested
  obtain ⟨acted, p, accepted⟩ :
      headerHeld ∈ (Console.State.start ⟨0, 0⟩).after? [.setInput (utf8 "to f"), .press .enter,
        .setInput (utf8 "pu end")] ∧ ∃ p, parse headerHeld.entered = .ok p := by decide +kernel
  have reached : headerHeld.Reached ⟨0, 0⟩ := Console.State.Reached.start.after acted
  have parsed := nested _ p accepted
  obtain ⟨after, submitted, emptied, -, ran⟩ := executed headerHeld p accepted
  refine ⟨reached, nofun, (held _ _ reached nofun).2, p, accepted, parsed.1, ?_, after, submitted,
    emptied, ran nofun⟩
  exact (parsed.2.2.2.1 1).2

end TurtleLogo
