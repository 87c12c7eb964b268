import TurtleLogo.Proofs.Parse.Faults

/-!
What the frame of an error shows. The line is found by counting newlines, and the column was
counted rune by rune while the text was scanned; yet the culprit stands above the carets. Only
behind the last line of a text is there a caret under nothing.
-/
namespace TurtleLogo
open Text

structure CodeFrame where
  line : Nat
  shown : Bytes
  column : Nat
  carets : Nat
  deriving DecidableEq, Repr

namespace CodeFrame

def text (f : CodeFrame) : Bytes :=
  utf8 "  --> line " ++ decimal f.line ++ utf8 ", column " ++ decimal f.column ++ [newline] ++
    [space] ++ decimal f.line ++ utf8 " | " ++ f.shown ++ [newline] ++
    [space] ++ List.replicate (decimal f.line).length space ++ utf8 " | " ++
    List.replicate (f.column - 1) space ++ List.replicate f.carets (byte '^')

def underlined (f : CodeFrame) : List (Rune × Bytes) :=
  ((runePieces f.shown).drop (f.column - 1)).take f.carets

def clamped (shown : Bytes) (pos : Position) (width : Nat) : CodeFrame :=
  let column := min (max pos.column 1) (runeCount shown + 1)
  ⟨pos.line, shown, column, min (max width 1) (max (runeCount shown + 1 - column) 1)⟩

theorem clamped_column (shown : Bytes) (pos : Position) (width : Nat) :
    0 < (clamped shown pos width).column ∧
      (clamped shown pos width).column ≤ runeCount shown + 1 ∧
      ((clamped shown pos width).column : Int) =
        min (max (pos.column : Int) 1) (runeCount shown + 1) := by
  simp only [clamped]
  omega

theorem clamped_carets (shown : Bytes) (pos : Position) (width : Nat) :
    ((clamped shown pos width).carets : Int) =
      min (max (width : Int) 1)
        (max (runeCount shown - (clamped shown pos width).column + 1) 1) := by
  simp only [clamped]
  omega

theorem text_ne_nil (f : CodeFrame) : f.text ≠ [] := by
  simp [text]

end CodeFrame

theorem codeFrame_of_line {source line : Bytes} {pos : Position} (nonempty : source ≠ [])
    (counted : 0 < pos.line) (quoted : (lines source)[pos.line - 1]? = some line) (width : Nat) :
    codeFrame source pos width = (CodeFrame.clamped (withoutReturns line) pos width).text := by
  have inside : ¬(source.isEmpty || pos.line == 0) = true := by
    simp only [Bool.or_eq_true, List.isEmpty_iff, beq_iff_eq, not_or]
    exact ⟨nonempty, by omega⟩
  rw [codeFrame, if_neg inside, quoted]
  rfl

theorem decimal_one_line (n : Nat) : newline ∉ decimal n :=
  fun member => absurd (decimal_digits n newline member) (by decide)

theorem first_line_eq {line line' rest rest' : Bytes} (one : newline ∉ line)
    (one' : newline ∉ line')
    (same : line ++ newline :: rest = line' ++ newline :: rest') : line = line' ∧ rest = rest' := by
  have first := congrArg firstLine same
  rw [firstLine_append _ one, firstLine_append _ one', firstLine_newline, firstLine_newline,
    List.append_nil, List.append_nil] at first
  subst first
  exact ⟨rfl, List.tail_eq_of_cons_eq (List.append_cancel_left same)⟩

namespace CodeFrame

def header (f : CodeFrame) : Bytes :=
  utf8 "  --> line " ++ decimal f.line ++ utf8 ", column " ++ decimal f.column

def gutter (f : CodeFrame) : Bytes := [space] ++ decimal f.line ++ utf8 " | "

theorem text_lines (f : CodeFrame) : ∃ carets,
    f.text = f.header ++ newline :: (f.gutter ++ f.shown ++ newline :: carets) :=
  ⟨_, by simp only [text, header, gutter, List.append_assoc,
    List.cons_append, List.nil_append]; rfl⟩

theorem shown_eq {f f' : CodeFrame} (same : f.text = f'.text) (line : f.line = f'.line)
    (one : newline ∉ f.shown) (one' : newline ∉ f'.shown) : f.shown = f'.shown := by
  have header_one (g : CodeFrame) : newline ∉ g.header := by
    simp only [header, List.mem_append, not_or]
    exact ⟨⟨⟨by decide, decimal_one_line _⟩, by decide⟩, decimal_one_line _⟩
  have line_one {g : CodeFrame} (one : newline ∉ g.shown) : newline ∉ g.gutter ++ g.shown := by
    simp only [gutter, List.mem_append, not_or]
    exact ⟨⟨⟨by decide, decimal_one_line _⟩, by decide⟩, one⟩
  obtain ⟨carets, parts⟩ := f.text_lines
  obtain ⟨carets', parts'⟩ := f'.text_lines
  rw [parts, parts'] at same
  obtain ⟨-, behind⟩ := first_line_eq (header_one f) (header_one f') same
  obtain ⟨shown, -⟩ := first_line_eq (line_one one) (line_one one') behind
  have margin : f.gutter = f'.gutter := by rw [gutter, gutter, line]
  rw [margin] at shown
  exact List.append_cancel_left shown

end CodeFrame

theorem withoutReturns_one_line {text line : Bytes} (listed : line ∈ lines text) :
    newline ∉ withoutReturns line := by
  intro member
  obtain ⟨returns, parts, -⟩ := withoutReturns_split line
  refine newline_not_mem_line text line listed ?_
  rw [parts]
  exact List.mem_append_left _ member

/-- A frame is that of every text that has its line at the place, and of no others. -/
theorem codeFrame_eq_iff {source shown : Bytes} {pos : Position} (counted : 0 < pos.line)
    (visible : shown ≠ []) (one : newline ∉ shown) (width : Nat) :
    codeFrame source pos width = (CodeFrame.clamped shown pos width).text ↔
      (lines source)[pos.line - 1]?.map withoutReturns = some shown := by
  have drawn := (CodeFrame.clamped shown pos width).text_ne_nil
  by_cases empty : source = []
  · subst empty
    refine iff_of_false drawn.symm ?_
    intro quoted
    obtain ⟨line, listed, rfl⟩ := Option.map_eq_some_iff.mp quoted
    obtain rfl : line = [] := List.mem_singleton.mp (List.mem_of_getElem? listed)
    exact visible rfl
  cases quoted : (lines source)[pos.line - 1]? with
  | none =>
    refine iff_of_false ?_ nofun
    rw [codeFrame, quoted]
    split <;> exact drawn.symm
  | some line =>
    rw [codeFrame_of_line empty counted quoted, Option.map_some, Option.some.injEq]
    constructor
    · intro same
      have other := withoutReturns_one_line (List.mem_of_getElem? quoted)
      exact CodeFrame.shown_eq same rfl other one
    · rintro rfl
      rfl

def repeated? (count : Int) (b : UInt8) : Option Bytes :=
  if count < 0 then none else some (List.replicate count.toNat b)

theorem repeated?_natCast (n : Nat) (b : UInt8) : repeated? n b = some (List.replicate n b) :=
  if_neg (by omega)

def codeFrame? (source : Bytes) (line column width : Int) : Option Bytes :=
  if source.isEmpty || line ≤ 0 then some []
  else match (lines source)[(line - 1).toNat]? with
    | none => some []
    | some text => do
      let shown := withoutReturns text
      let count : Int := runeCount shown
      let column := min (max column 1) (count + 1)
      let carets := min (max width 1) (max (count - column + 1) 1)
      let gutter := signedDecimal line
      let margin ← repeated? gutter.length space
      let indent ← repeated? (column - 1) space
      let underline ← repeated? carets (byte '^')
      some (utf8 "  --> line " ++ gutter ++ utf8 ", column " ++ signedDecimal column ++ [newline] ++
        [space] ++ gutter ++ utf8 " | " ++ shown ++ [newline] ++
        [space] ++ margin ++ utf8 " | " ++ indent ++ underline)

theorem codeFrame?_eq (source : Bytes) (offset : Nat) (line column width : Int) :
    codeFrame? source line column width =
      some (codeFrame source ⟨offset, line.toNat, column.toNat⟩ width.toNat) := by
  by_cases empty : source = []
  · subst empty
    rfl
  by_cases before : line ≤ 0
  · have nowhere : line.toNat = 0 := by omega
    simp [codeFrame?, codeFrame, before, nowhere]
  obtain ⟨n, rfl⟩ : ∃ n : Nat, line = n := ⟨line.toNat, by omega⟩
  have index : ((n : Int) - 1).toNat = n - 1 := by omega
  have skip : ¬(source.isEmpty || decide ((n : Int) ≤ 0)) = true := by
    simpa [empty] using before
  rw [codeFrame?, if_neg skip, index, Int.toNat_natCast]
  cases quoted : (lines source)[n - 1]? with
  | none =>
    rw [codeFrame, quoted]
    simp
  | some text =>
    have counted : 0 < n := by omega
    rw [codeFrame_of_line empty counted quoted]
    dsimp only
    generalize withoutReturns text = shown
    obtain ⟨low, -, columns⟩ :=
      CodeFrame.clamped_column shown ⟨offset, n, column.toNat⟩ width.toNat
    have carets := CodeFrame.clamped_carets shown ⟨offset, n, column.toNat⟩ width.toNat
    have indent : ∀ k : Nat, 0 < k → (k : Int) - 1 = (k - 1 : Nat) := by omega
    have nearest : ∀ k : Int, max (k.toNat : Int) 1 = max k 1 := by omega
    simp only [nearest] at columns carets
    simp only [← columns, ← carets, indent _ low, repeated?_natCast]
    rfl

/-- The carets stand at the place, under the runes of the text and no others. -/
structure CodeFrame.Underlines (frame : CodeFrame) (p : Position) (text : Bytes) : Prop where
  column : frame.column = p.column
  carets : frame.carets = runeCount text
  runes : frame.underlined = runePieces text
  bytes : frame.underlined.flatMap Prod.snd = text

theorem InLine.underlined_part {source text before behind : Bytes} {p : Position}
    (inLine : InLine source p text before behind) (word : Word text) {width : Nat}
    (positive : 0 < width) (narrow : width ≤ runeCount text) :
    let frame := CodeFrame.clamped (withoutReturns (before ++ (text ++ behind))) p width
    frame.column = p.column ∧ frame.carets = width ∧
      frame.underlined = (runePieces text).take width := by
  intro frame
  obtain ⟨shown, front, back⟩ := inLine.shown word
  have column := inLine.column
  have size := front.runeCount
  rw [back.runeCount] at size
  have columns : frame.column = p.column := by
    simp only [frame, CodeFrame.clamped, shown]
    omega
  have carets : frame.carets = width := by
    simp only [frame, CodeFrame.clamped, shown]
    omega
  refine ⟨columns, carets, ?_⟩
  have indent : p.column - 1 = (runePieces before).length := by
    rw [column, Nat.add_sub_cancel_left, runeCount]
  have fits : width ≤ (runePieces text).length := narrow
  rw [CodeFrame.underlined, columns, carets, indent]
  simp only [frame, CodeFrame.clamped]
  rw [shown, front, back, List.drop_left, List.take_append_of_le_length fits]

theorem InLine.underlined {source text before behind : Bytes} {p : Position}
    (inLine : InLine source p text before behind) (word : Word text) :
    (CodeFrame.clamped (withoutReturns (before ++ (text ++ behind))) p (runeCount text)).Underlines
      p text := by
  obtain ⟨column, carets, runes⟩ :=
    inLine.underlined_part word (runeCount_pos word.1) (Nat.le_refl _)
  have whole : (runePieces text).take (runeCount text) = runePieces text := List.take_length
  rw [whole] at runes
  refine ⟨column, carets, runes, ?_⟩
  rw [runes, flatten_runePieces]

namespace Fault

/-- The message of the fault ends in the frame, which quotes the line of its place. -/
structure ShownAs (source : Bytes) (f : Fault) (frame : CodeFrame) : Prop where
  line : frame.line = f.pos.line ∧ 0 < frame.line
  quoted : (lines source)[frame.line - 1]?.map withoutReturns = some frame.shown
  rendered : codeFrame source f.pos (runeCount f.culprit) = frame.text
  reported : newline :: frame.text <:+ f.message source

variable {source : Bytes} {f : Fault}

theorem FoundIn.source_ne_nil (found : f.FoundIn source) : source ≠ [] := by
  rintro rfl
  cases f with
  | lex e => exact absurd found List.not_mem_nil
  | parse e =>
    obtain ⟨d, rejected, -⟩ := found
    contradiction

theorem FoundIn.shownAs {line : Bytes} (found : f.FoundIn source) (counted : 0 < f.pos.line)
    (quoted : (lines source)[f.pos.line - 1]? = some line) :
    f.ShownAs source (CodeFrame.clamped (withoutReturns line) f.pos (runeCount f.culprit)) := by
  have rendered := codeFrame_of_line found.source_ne_nil counted quoted (runeCount f.culprit)
  refine ⟨⟨rfl, counted⟩, ?_, rendered, ?_⟩
  · exact congrArg (Option.map withoutReturns) quoted
  · unfold message withFrame
    rw [rendered, if_neg (mt List.isEmpty_iff.mp (CodeFrame.text_ne_nil _))]
    exact List.suffix_append _ _

end Fault

/-- A frame underlines what is at fault and no more. Behind the end of the text it has one caret,
    at most one place past the line. No frame repeats anything a negative number of times. -/
theorem frames_underline_culprits (source : Bytes) :
    (∀ f : Fault, f.FoundIn source → f.tokenKind? ≠ some .eof →
      ∃ frame : CodeFrame, f.ShownAs source frame ∧ frame.Underlines f.pos f.culprit) ∧
    (∀ f : Fault, f.FoundIn source → f.tokenKind? = some .eof →
      ∃ frame : CodeFrame, f.ShownAs source frame ∧ frame.carets = 1 ∧ 0 < frame.column ∧
        frame.column ≤ runeCount frame.shown + 1) ∧
    ∀ (offset : Nat) (line column width : Int), codeFrame? source line column width =
      some (codeFrame source ⟨offset, line.toNat, column.toNat⟩ width.toNat) := by
  refine ⟨?_, ?_, codeFrame?_eq source⟩
  · intro f found inside
    obtain ⟨word, before, behind, inLine⟩ := f.inLine found inside
    exact ⟨_, found.shownAs inLine.counted inLine.line, inLine.underlined word⟩
  · intro f found ending
    obtain ⟨nothing, finish⟩ := f.at_finish found ending
    obtain ⟨line, -⟩ := finish_inLine source
    have several := lines_length source
    have counted : 0 < f.pos.line := by
      rw [finish, line]
      omega
    have quoted : (lines source)[f.pos.line - 1]? = some (lastLine source) := by
      rw [finish, line, ← List.getLast?_eq_getElem?, getLast_lines]
    refine ⟨_, found.shownAs counted quoted, ?_, ?_⟩
    · rw [nothing]
      simp only [CodeFrame.clamped, runeCount, runePieces, runePiecesFrom, List.length_nil]
      omega
    · exact ⟨(CodeFrame.clamped_column _ _ _).1, (CodeFrame.clamped_column _ _ _).2.1⟩

def marredText : Bytes := utf8 "; é\r\nfd " ++ [0xF0, 0x9F] ++ utf8 "? 1\r\n"

def marredRun : Fault := .lex ⟨⟨9, 2, 4⟩, [0xF0, 0x9F, 0x3F]⟩

def openText : Bytes := utf8 "; é\r\nfd )\r\nrepeat 2 [ pu\r"

def openBracket : Fault := .parse ⟨⟨.eof, [], ⟨26, 3, 15⟩⟩, .expected (.kind .rightBracket)⟩

theorem frames_underline_culprits_of_marred_text :
    (marredRun.FoundIn marredText ∧ marredRun.tokenKind? ≠ some .eof ∧
      ∃ frame : CodeFrame, marredRun.ShownAs marredText frame ∧ frame.column = 4 ∧
        frame.carets = 3 ∧ frame.underlined.flatMap Prod.snd = [0xF0, 0x9F, 0x3F]) ∧
    (openBracket.FoundIn openText ∧ openBracket.tokenKind? = some .eof ∧
      ∃ frame : CodeFrame, openBracket.ShownAs openText frame ∧ frame.carets = 1 ∧
        frame.column ≤ runeCount frame.shown + 1) := by
  have marred : marredRun.FoundIn marredText := by
    change _ ∈ (tokenize marredText).errors
    decide +kernel
  have opened : openBracket.FoundIn openText := by
    change ∃ e, parse openText = .error e ∧ openBracket ∈ e.faults
    decide +kernel
  obtain ⟨shown, shownAs, underlines⟩ :=
    (frames_underline_culprits marredText).1 marredRun marred nofun
  obtain ⟨last, lastAs, caret, -, bound⟩ :=
    (frames_underline_culprits openText).2.1 openBracket opened rfl
  exact ⟨⟨marred, nofun, shown, shownAs, underlines.column, underlines.carets, underlines.bytes⟩,
    opened, rfl, last, lastAs, caret, bound⟩

end TurtleLogo
