import TurtleLogo.Proofs.Console.Lines

/-!
The view and the window. The lines for the transcript are reckoned by what the rest takes, and one
line more where there are panels or two where there are none, so what is shown fits into the window
or is no more than the rest. The reckoning is done in 64 bits: next to the least number of lines a
window could have it wraps around, and then the whole transcript is shown.
-/
namespace TurtleLogo

namespace Console
open Text

theorem sideBySide_height (blocks : List Block) : (sideBySide blocks).length = tallest blocks := by
  rw [sideBySide, List.length_map, List.length_range]

namespace State

/-- The lines of a window that are left to the transcript, below zero if it is too small for the
    rest. -/
def room (s : State) (w : Window) : Int :=
  w.height - 6 - max 1 (tallest s.blocks) - s.pending.length

variable {s : State} {w : Window}

theorem budget_eq (s : State) (w : Window) :
    s.budget w = (Number.wrapped (s.room w)).toNat := by
  have panels : height s.panelBlock = tallest s.blocks := sideBySide_height s.blocks
  rw [budget, room, panels]

/-- The end of a list is cut off only if the whole list is too long, and is then as long as it may
    be. -/
theorem lastLines_split (n : Nat) (ls : List Bytes) :
    ∃ older, ls = older ++ lastLines n ls ∧
      (older ≠ [] → n < ls.length ∧ (lastLines n ls).length = n) := by
  refine ⟨ls.take (ls.length - n), (List.take_append_drop _ _).symm, fun cut => ?_⟩
  have longer : n < ls.length := by
    refine Nat.lt_of_not_le fun fits => cut ?_
    rw [Nat.sub_eq_zero_of_le fits, List.take_zero]
  refine ⟨longer, ?_⟩
  rw [lastLines, List.length_drop]
  omega

theorem lastLines_length (n : Nat) (ls : List Bytes) :
    (lastLines n ls).length = min n ls.length := by
  rw [lastLines, List.length_drop]
  omega

theorem view_of_sized (staying : s.quitting = false) (sized : s.window = some w)
    (inputLine : Bytes) : s.view inputLine =
      [s.title, []] ++ lastLines (s.budget w) s.transcriptLines ++ s.panelBlock ++
        s.pending.map (Prompt.continued.text ++ ·) ++ [inputLine, [], footer] := by
  rw [view, staying, sized]
  rfl

theorem view_length (staying : s.quitting = false) (sized : s.window = some w)
    (inputLine : Bytes) : (s.view inputLine).length =
      min (s.budget w) s.transcriptLines.length + (5 + tallest s.blocks + s.pending.length) := by
  rw [view_of_sized staying sized]
  simp only [List.length_append, List.length_map, List.length_cons, List.length_nil,
    lastLines_length, panelBlock, sideBySide_height]
  omega

theorem view_fits (staying : s.quitting = false) (sized : s.window = some w) (inputLine : Bytes)
    (low : -Number.twoTo 63 ≤ s.room w) (high : w.height < Number.twoTo 63) :
    s.budget w = max (s.room w) 0 ∧
      (s.view inputLine).length ≤
        max w.height ((5 + tallest s.blocks + s.pending.length : Nat) : Int) := by
  have below : s.room w < Number.twoTo 63 := by
    unfold room
    omega
  have budget : s.budget w = max (s.room w) 0 := by
    rw [budget_eq, Number.wrapped_eq low below]
    omega
  refine ⟨budget, ?_⟩
  rw [view_length staying sized]
  unfold room at budget
  omega

end State

open State

/-- The view of a console is one text of lines: the title, the end of the transcript, the panels,
    what is held back, the input line and the keys. Older lines of the transcript are left out only
    if all of them are more than it is given. As long as the reckoning stays within 64 bits, so in
    every window whose height is not next to the least number, it is given what the rest leaves,
    and there are no more lines than the window has or the rest takes. -/
theorem view_fits_window {random : Random.Stream} {s : State} {w : Window} {inputLine : Bytes}
    (reached : s.Reached random) (staying : s.quitting = false) (sized : s.window = some w)
    (one : newline ∉ inputLine) :
    ∃ older shown, s.transcriptLines = older ++ shown ∧
      lines (joined [newline] (s.view inputLine)) =
        [s.title, []] ++ shown ++ s.panelBlock ++ s.pending.map (Prompt.continued.text ++ ·) ++
          [inputLine, [], footer] ∧
      s.panelBlock.length = tallest s.blocks ∧
      (older ≠ [] → s.budget w < s.transcriptLines.length ∧ shown.length = s.budget w) ∧
      (-Number.twoTo 63 ≤ s.room w → w.height < Number.twoTo 63 →
        s.budget w = max (s.room w) 0 ∧
          (lines (joined [newline] (s.view inputLine))).length ≤
            max w.height ((5 + tallest s.blocks + s.pending.length : Nat) : Int)) := by
  obtain ⟨log, talk⟩ := reached.conversation
  have unbroken := view_unbroken talk.speaks talk.typed one
  have content := view_of_sized staying sized inputLine
  have text : lines (joined [newline] (s.view inputLine)) = s.view inputLine :=
    unbroken.lines_joined (by rw [content]; simp)
  obtain ⟨older, parts, cut⟩ := lastLines_split (s.budget w) s.transcriptLines
  refine ⟨older, _, parts, text.trans content, sideBySide_height s.blocks, cut, ?_⟩
  intro low high
  rw [text]
  exact view_fits staying sized inputLine low high

def smallWindow : Window := ⟨80, 20⟩

/-- One line is left to a transcript of two. -/
theorem view_fits_window_of_help :
    ∃ s : State, s.Reached ⟨0, 0⟩ ∧ s.quitting = false ∧ s.window = some smallWindow ∧
      newline ∉ utf8 "logo> " ∧ s.pending = [utf8 "repeat 2 ["] ∧ tallest s.blocks = 12 ∧
      s.transcriptLines = [utf8 "  › :x", utf8 "  ✗ unknown command :x (try :help)"] ∧
      s.budget smallWindow = 1 ∧
      (lines (joined [newline] (s.view (utf8 "logo> ")))).length ≤ smallWindow.height ∧
      utf8 "  › :x" ∉ lines (joined [newline] (s.view (utf8 "logo> "))) := by
  obtain ⟨s, acted, staying, sized, pending, panels, transcript, budget, low, hidden⟩ :
      ∃ s ∈ (State.start ⟨0, 0⟩).after? [.setInput (utf8 ":x"), .press .enter,
          .setInput (utf8 "repeat 2 ["), .press .enter, .press .help, .resize 80 20],
        s.quitting = false ∧ s.window = some smallWindow ∧ s.pending = [utf8 "repeat 2 ["] ∧
        tallest s.blocks = 12 ∧
        s.transcriptLines = [utf8 "  › :x", utf8 "  ✗ unknown command :x (try :help)"] ∧
        s.budget smallWindow = 1 ∧ -Number.twoTo 63 ≤ s.room smallWindow ∧
        utf8 "  › :x" ∉ lines (joined [newline] (s.view (utf8 "logo> "))) := by decide +kernel
  have reached := State.Reached.start.after acted
  have one : newline ∉ utf8 "logo> " := by decide
  obtain ⟨older, shown, -, -, -, -, fits⟩ := view_fits_window reached staying sized one
  obtain ⟨-, size⟩ := fits low (by decide)
  rw [panels, pending] at size
  exact ⟨s, reached, staying, sized, one, pending, panels, transcript, budget, size, hidden⟩

def leastWindow : Window := ⟨80, -Number.twoTo 63⟩

/-- Taking six lines from the least number wraps around to a great one, so that the transcript is
    shown in a window that leaves no room to it. -/
theorem least_window_shows_transcript :
    ∃ s : State, s.Reached ⟨0, 0⟩ ∧ s.quitting = false ∧ s.window = some leastWindow ∧
      newline ∉ utf8 "logo> " ∧ s.pending = [] ∧ s.blocks = [] ∧
      (lines (joined [newline] (s.view (utf8 "logo> ")))).length = 7 ∧
      ¬((lines (joined [newline] (s.view (utf8 "logo> ")))).length : Int) ≤
        max leastWindow.height ((5 + tallest s.blocks + s.pending.length : Nat) : Int) := by
  obtain ⟨s, acted, staying, sized, pending, panels, shown, high⟩ :
      ∃ s ∈ (State.start ⟨0, 0⟩).after? [.setInput (utf8 ":x"), .press .enter,
          .resize 80 (-Number.twoTo 63)],
        s.quitting = false ∧ s.window = some leastWindow ∧ s.pending = [] ∧ s.blocks = [] ∧
        (lines (joined [newline] (s.view (utf8 "logo> ")))).length = 7 ∧
        ¬((lines (joined [newline] (s.view (utf8 "logo> ")))).length : Int) ≤
          max leastWindow.height ((5 + tallest s.blocks + s.pending.length : Nat) : Int) := by
    decide +kernel
  have reached := State.Reached.start.after acted
  exact ⟨s, reached, staying, sized, by decide, pending, panels, shown, high⟩

end Console
end TurtleLogo
