import TurtleLogo.Proofs.Evaluate.Backtrace
import TurtleLogo.Proofs.Fault.Frames
import TurtleLogo.Proofs.Program.Standing

/-!
The text that a node was read from. Procedures outlive the text that defines them, and their nodes
keep the places that they have there; but the frame of an error is cut out of the text that runs. So
an error in a procedure of an earlier text shows the line of the wrong text, or no line, unless both
texts have the same line there.
-/
namespace TurtleLogo
open Text Scan

/-- A session behind texts that were executed in it, the last one first. -/
inductive Session.Behind (random : Random.Stream) : List Bytes → Session → Prop where
  | start : Behind random [] (.start random)
  | exec {texts : List Bytes} {s : Session} (before : Behind random texts s) (fuel : Nat)
      (limits : Limits) (cancelledFrom : Option Nat) (text : Bytes) :
      Behind random (text :: texts) (s.execWith fuel limits cancelledFrom text).session

def definedIn (texts : List Bytes) : List Procedure :=
  texts.flatMap fun text => match parse text with
    | .ok p => p.procedures
    | .error _ => []

theorem mem_definedIn {texts : List Bytes} {q : Procedure} :
    q ∈ definedIn texts ↔ ∃ text ∈ texts, ∃ p, parse text = .ok p ∧ q ∈ p.procedures := by
  rw [definedIn, List.mem_flatMap]
  refine exists_congr fun text => and_congr_right fun _ => ?_
  cases parse text <;> simp

theorem definedIn_cons {text : Bytes} {texts : List Bytes} {p : Program}
    (accepted : parse text = .ok p) :
    definedIn (text :: texts) = p.procedures ++ definedIn texts := by
  rw [definedIn, List.flatMap_cons, accepted]
  rfl

def Program.groundBehind (p : Program) (texts : List Bytes) : Ground :=
  ⟨nodesOf p.statements, p.procedures ++ definedIn texts⟩

theorem Program.groundBehind_task (p : Program) (texts : List Bytes) :
    (p.groundBehind texts).terrain.task none (.statements p.statements) :=
  ⟨List.Subset.refl _, List.subset_append_left _ _⟩

theorem Ground.holds_behind {g g' : Ground} {m : Machine} (listed : g.procedures ⊆ g'.procedures)
    (holds : g.terrain.Holds none m) : g'.terrain.Holds none (Session.ofMachine m).machine := by
  refine ⟨?_, ?_⟩
  · intro name q known
    obtain ⟨named, defined, inner⟩ := holds.env name q known
    exact ⟨named, listed defined, List.Subset.trans inner listed⟩
  · have inside : g.Inside none m.calls.frames m.env.frames := holds.stack
    have idle : m.env.frames = [] := by
      generalize m.calls.frames = calls at inside
      generalize m.env.frames = frames at inside ⊢
      cases inside
      rfl
    have nothing : g'.Inside none [] m.env.frames := idle ▸ .outside
    exact nothing

/-- All procedures that a session knows are from its texts. -/
theorem Session.Behind.holds {random : Random.Stream} {texts : List Bytes} {s : Session}
    (behind : Behind random texts s) {g : Ground} (listed : definedIn texts ⊆ g.procedures) :
    g.terrain.Holds none s.machine := by
  induction behind generalizing g with
  | start => exact ⟨nofun, .outside⟩
  | @exec texts s before fuel limits cancelledFrom text ih =>
    have earlier : definedIn texts ⊆ g.procedures :=
      List.Subset.trans (List.subset_append_right _ _) listed
    unfold execWith
    cases accepted : parse text with
    | error e => exact ih earlier
    | ok p =>
      rw [definedIn_cons accepted] at listed
      have start : (p.groundBehind texts).terrain.Holds none s.machine :=
        ih (List.subset_append_right _ _)
      have meets :=
        Ground.evaluate_meets (p.groundBehind_task texts) start fuel limits cancelledFrom
      dsimp only
      unfold runWith
      generalize s.evaluate fuel limits cancelledFrom p = o at meets
      cases o with
      | done signal m => exact Ground.holds_behind listed meets.2
      | failed e m => exact Ground.holds_behind listed meets.2
      | outOfFuel => exact ih earlier

theorem Session.Behind.raised {random : Random.Stream} {texts : List Bytes} {s : Session}
    (behind : Behind random texts s) {fuel : Nat} {limits : Limits} {cancelledFrom : Option Nat}
    {text : Bytes} {e : RuntimeError}
    (failed : (s.execWith fuel limits cancelledFrom text).failure = some (.runtime e)) :
    ∃ p, parse text = .ok p ∧ (p.groundBehind texts).terrain.Permits text e := by
  unfold execWith at failed
  cases accepted : parse text with
  | error d =>
    rw [accepted] at failed
    cases failed
  | ok p =>
    refine ⟨p, rfl, ?_⟩
    have meets := Ground.evaluate_meets (p.groundBehind_task texts)
      (behind.holds (List.subset_append_right _ _)) fuel limits cancelledFrom
    rw [(parse_eq_ok_iff.mp accepted).2.2] at meets
    rw [accepted] at failed
    dsimp only at failed
    unfold runWith at failed
    cases ended : s.evaluate fuel limits cancelledFrom p with
    | done signal m =>
      rw [ended] at failed
      cases failed
    | failed d m =>
      rw [ended] at failed meets
      obtain rfl : d = e := by injection failed with same; injection same
      exact meets.1
    | outOfFuel =>
      rw [ended] at failed
      cases failed

/-- The frame shows the line of the node in the text, with one caret under its first rune. -/
structure Node.Quoted (node : Node) (source : Bytes) (frame : CodeFrame) : Prop where
  line : frame.line = node.pos.line ∧ 0 < frame.line
  quoted : (lines source)[frame.line - 1]?.map withoutReturns = some frame.shown
  column : frame.column = node.pos.column
  caret : frame.carets = 1
  first : ∃ x rest, node.lexemes = x :: rest ∧ ∃ t ∈ (tokenize source).tokens, x.Fits t ∧
    t.pos = node.pos ∧ frame.underlined = (runePieces t.literal).take 1

theorem Program.HasNode.quoted {source : Bytes} {p : Program} {node : Node} (lies : p.HasNode node)
    (accepted : parse source = .ok p) :
    ∃ shown, node.Quoted source (CodeFrame.clamped shown node.pos 1) ∧ shown ≠ [] ∧
      newline ∉ shown := by
  obtain ⟨x, rest, starts, placed⟩ := node.starts_at_pos
  have listed := lies.stands (starts ▸ List.mem_cons_self)
  obtain ⟨t, among, fits⟩ := lexemes_stand accepted x listed
  have pos : t.pos = node.pos := fits.2 _ placed
  obtain ⟨word, before, behind, inLine⟩ := token_inLine among
  obtain ⟨column, caret, first⟩ :=
    inLine.underlined_part word (Nat.le_refl 1) (runeCount_pos word.1)
  rw [pos] at inLine column caret first
  refine ⟨withoutReturns (before ++ (t.literal ++ behind)), ?_, ?_, ?_⟩
  · refine ⟨⟨rfl, inLine.counted⟩,
      congrArg (Option.map withoutReturns) inLine.line, column, caret, ?_⟩
    exact ⟨x, rest, starts, t, among, fits, pos, first⟩
  · rw [(inLine.shown word).1]
    simp [word.1]
  · exact withoutReturns_one_line (List.mem_of_getElem? inLine.line)

/-- The innermost frame of an error is at a node outside all procedures of the text, or at one in
    the body of a procedure of its name, which some text of the session defines. -/
theorem Program.permitted {p : Program} {texts : List Bytes} {text : Bytes} {e : RuntimeError}
    (accepted : parse text = .ok p) (permits : (p.groundBehind texts).terrain.Permits text e) :
    ∃ f rest, e.frames = f :: rest ∧ e.codeFrame = codeFrame text f.pos 1 ∧
      ((rest = [] ∧ ∃ node ∈ nodesOf p.statements, node.pos = f.pos) ∨
        ∃ origin ∈ text :: texts, ∃ o, parse origin = .ok o ∧ ∃ q ∈ o.procedures,
          q.name = f.procedure ∧ ∃ node ∈ nodesOf q.body, node.pos = f.pos) := by
  obtain ⟨r, m, cause, pos, holds, ⟨⟨node, member, place⟩, -⟩, rfl⟩ := permits
  have inside : (p.groundBehind texts).Inside r m.calls.frames m.env.frames := holds.stack
  generalize m.calls.frames = calls at inside ⊢
  generalize m.env.frames = frames at inside
  cases inside with
  | outside => exact ⟨_, _, rfl, rfl, .inl ⟨rfl, node, member, place⟩⟩
  | @body r calls frames q callPos values caller defined site fits =>
    refine ⟨_, _, rfl, rfl, .inr ?_⟩
    have listed : q ∈ definedIn (text :: texts) := (definedIn_cons accepted).symm ▸ defined
    obtain ⟨origin, among, o, read, from_origin⟩ := mem_definedIn.mp listed
    exact ⟨origin, among, o, read, q, from_origin, rfl, node, member, place⟩

/-- The error of a text in a session is at a node of the text, or at one in a procedure of a text
    that was executed before. Its frame is cut out of the text that runs: it is the frame of the
    node in its own text if and only if the text that runs has the same line at the place. -/
theorem runtime_frames_quote_the_running_text {random : Random.Stream} {texts : List Bytes}
    {s : Session} (behind : s.Behind random texts) (fuel : Nat) (limits : Limits)
    (cancelledFrom : Option Nat) (text : Bytes) (e : RuntimeError)
    (failed : (s.execWith fuel limits cancelledFrom text).failure = some (.runtime e)) :
    ∃ p f rest, parse text = .ok p ∧ e.frames = f :: rest ∧
      ((rest = [] ∧ ∃ node ∈ nodesOf p.statements, node.pos = f.pos) ∨
        ∃ origin ∈ text :: texts, ∃ o, parse origin = .ok o ∧ ∃ q ∈ o.procedures,
          q.name = f.procedure ∧ ∃ node ∈ nodesOf q.body, node.pos = f.pos) ∧
      ∀ origin o node, parse origin = .ok o → o.HasNode node → node.pos = f.pos →
        ∃ frame : CodeFrame, node.Quoted origin frame ∧
          (e.codeFrame = frame.text ↔
            (lines text)[frame.line - 1]?.map withoutReturns = some frame.shown) := by
  obtain ⟨p, accepted, permits⟩ := behind.raised failed
  obtain ⟨f, rest, frames, drawn, place⟩ := Program.permitted accepted permits
  refine ⟨p, f, rest, accepted, frames, place, ?_⟩
  intro origin o node read lies at_place
  obtain ⟨shown, quoted, visible, one⟩ := lies.quoted read
  refine ⟨_, quoted, ?_⟩
  rw [drawn, ← at_place]
  have counted : 0 < node.pos.line := quoted.line.2
  exact codeFrame_eq_iff counted visible one 1

def definingText : Bytes := utf8 "to f\n  fd :x\nend"

def missedReference : Node := .expr (.param ⟨10, 2, 6⟩ [120])

def definingProgram : Program where
  statements := [.define ⟨0, 1, 1⟩ [102] ⟨3, 1, 4⟩ []
    [.move ⟨7, 2, 3⟩ true (.param ⟨10, 2, 6⟩ [120])]]
  source := definingText

def definedSession : Session := ((Session.start ⟨0, 0⟩).execWith 20 .none none definingText).session

def missedInCall : RuntimeError :=
  ⟨.undefinedParameter [120], [], [⟨[102], ⟨10, 2, 6⟩⟩, ⟨[102], ⟨0, 1, 1⟩⟩]⟩

theorem call_misses_parameter : parse definingText = .ok definingProgram ∧
    (definedSession.execWith 20 .none none (utf8 "f")).failure = some (.runtime missedInCall) := by
  decide +kernel

set_option maxRecDepth 100000 in
/-- The error of a call in a text of its own is at the reference, in the text before. -/
theorem runtime_frames_quote_the_running_text_of_call :
    definedSession.Behind ⟨0, 0⟩ [definingText] ∧
      ∃ e, (definedSession.execWith 20 .none none (utf8 "f")).failure = some (.runtime e) ∧
        ∃ f g, e.frames = [f, g] ∧ missedReference.pos = f.pos ∧
          (∃ origin ∈ [utf8 "f", definingText], ∃ o, parse origin = .ok o ∧ ∃ q ∈ o.procedures,
            q.name = f.procedure ∧ ∃ node ∈ nodesOf q.body, node.pos = f.pos) ∧
          ∃ frame : CodeFrame, missedReference.Quoted definingText frame ∧
            (e.codeFrame = frame.text ↔
              (lines (utf8 "f"))[frame.line - 1]?.map withoutReturns = some frame.shown) := by
  have behind : definedSession.Behind ⟨0, 0⟩ [definingText] :=
    .exec .start 20 .none none definingText
  obtain ⟨read, failed⟩ := call_misses_parameter
  obtain ⟨p, f, rest, accepted, frames, raised, quotes⟩ :=
    runtime_frames_quote_the_running_text behind 20 .none none (utf8 "f") missedInCall failed
  obtain ⟨rfl, rfl⟩ := List.cons.inj frames
  have lies : definingProgram.HasNode missedReference :=
    .inr ⟨_, List.mem_cons_self, List.mem_cons_of_mem _ List.mem_cons_self⟩
  refine ⟨behind, missedInCall, failed, _, _, rfl, rfl, ?_,
    quotes definingText definingProgram missedReference read lies rfl⟩
  rcases raised with ⟨outside, -⟩ | origin
  · contradiction
  · exact origin

def parameterFrame : CodeFrame := ⟨2, utf8 "  fd :x", 6, 1⟩

theorem parameterFrame_quoted : missedReference.Quoted definingText parameterFrame := by
  refine ⟨⟨rfl, by decide⟩, rfl, rfl, rfl, _, _, rfl, ⟨.paramName, utf8 ":x", ⟨10, 2, 6⟩⟩,
    ?_, ⟨⟨rfl, rfl⟩, fun _ => Option.some.inj⟩, rfl, ?_⟩
  · decide +kernel
  · decide +kernel

/-- The text with the call has no second line, so the error shows none, although the reference is
    in the second line of the text before. -/
theorem earlier_text_not_quoted :
    definedSession.Behind ⟨0, 0⟩ [definingText] ∧ parse definingText = .ok definingProgram ∧
      ∃ e f rest, (definedSession.execWith 20 .none none (utf8 "f")).failure = some (.runtime e) ∧
        e.frames = f :: rest ∧
        (∃ q ∈ definingProgram.procedures, q.name = f.procedure ∧
          ∃ node ∈ nodesOf q.body, node.pos = f.pos ∧ node.Quoted definingText parameterFrame) ∧
        e.codeFrame ≠ parameterFrame.text := by
  obtain ⟨read, failed⟩ := call_misses_parameter
  refine ⟨.exec .start 20 .none none definingText, read, _, _, _, failed, rfl, ?_, ?_⟩
  · exact ⟨_, List.mem_cons_self, rfl, missedReference, List.mem_cons_of_mem _ List.mem_cons_self,
      rfl, parameterFrame_quoted⟩
  · exact (CodeFrame.text_ne_nil _).symm

end TurtleLogo
