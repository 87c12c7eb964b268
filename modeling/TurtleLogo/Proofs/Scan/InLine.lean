import TurtleLogo.Proofs.Scan.Lines

/-!
Where tokens and errors stand in their lines. Cutting a text at its newlines gives the line of every
place, and what stands there is in the line as a whole: no token and no error holds white space, so
none reaches over the end of its line or into the returns before it.
-/
namespace TurtleLogo

namespace Text

theorem lines_length (text : Bytes) : (lines text).length = text.count newline + 1 := by
  induction text using first_line_induction with
  | one line one => rw [lines_of_one one, List.count_eq_zero_of_not_mem one, List.length_singleton]
  | more line rest one ih =>
    rw [lines_append_newline rest one, List.length_cons, ih, List.count_append,
      List.count_eq_zero_of_not_mem one, List.count_cons_self, Nat.zero_add]

theorem firstLine_of_one {line : Bytes} (one : newline ∉ line) : firstLine line = line :=
  List.takeWhile_eq_self_iff.mpr (bne_newline one)

theorem firstLine_append {line : Bytes} (text : Bytes) (one : newline ∉ line) :
    firstLine (line ++ text) = line ++ firstLine text :=
  List.takeWhile_append_of_pos (bne_newline one)

theorem firstLine_newline (rest : Bytes) : firstLine (newline :: rest) = [] :=
  List.takeWhile_cons_of_neg (by simp)

theorem lines_of_first (text : Bytes) : ∃ others, lines text = firstLine text :: others := by
  induction text using first_line_induction with
  | one line one =>
    rw [lines_of_one one, firstLine_of_one one]
    exact ⟨[], rfl⟩
  | more line rest one _ =>
    rw [lines_append_newline rest one, firstLine_append _ one, firstLine_newline, List.append_nil]
    exact ⟨_, rfl⟩

theorem lines_at (front back : Bytes) :
    (lines (front ++ back))[front.count newline]? = some (lastLine front ++ firstLine back) := by
  induction front using first_line_induction with
  | one line one =>
    obtain ⟨others, cut⟩ := lines_of_first (line ++ back)
    rw [List.count_eq_zero_of_not_mem one, lastLine_of_one one, cut, firstLine_append _ one]
    rfl
  | more line rest one ih =>
    rw [List.append_assoc, List.cons_append, lines_append_newline _ one, lastLine_behind,
      List.count_append, List.count_cons_self, List.count_eq_zero_of_not_mem one, Nat.zero_add,
      List.getElem?_cons_succ, ih]

theorem getLast_lines (text : Bytes) : (lines text).getLast? = some (lastLine text) := by
  have last := lines_at text []
  rw [List.append_nil, firstLine, List.takeWhile_nil, List.append_nil] at last
  rw [List.getLast?_eq_getElem?, lines_length, Nat.add_sub_cancel, last]

theorem dropEndWhile_behind {p : UInt8 → Bool} {word : Bytes} (before back : Bytes)
    (nonempty : word ≠ []) (kept : ∀ b ∈ word, p b = false) :
    dropEndWhile p (before ++ (word ++ back)) = before ++ (word ++ dropEndWhile p back) := by
  obtain ⟨last, more, parts⟩ := List.exists_cons_of_ne_nil (List.reverse_ne_nil_iff.mpr nonempty)
  have member : last ∈ word := List.mem_reverse.mp (by simp [parts])
  have stays : (word.reverse ++ before.reverse).dropWhile p = word.reverse ++ before.reverse := by
    rw [parts, List.cons_append, List.dropWhile_cons_of_neg (by simp [kept last member])]
  unfold dropEndWhile
  rw [List.reverse_append, List.reverse_append, List.append_assoc, List.dropWhile_append, stays]
  split
  · rename_i empty
    rw [List.isEmpty_iff.mp empty]
    simp
  · simp

theorem Seam.runeCount {front back : Bytes} (seam : Seam front back) :
    runeCount (front ++ back) = Text.runeCount front + Text.runeCount back := by
  unfold Text.runeCount
  rw [seam, List.length_append]

theorem runeCount_pos {text : Bytes} (nonempty : text ≠ []) : 0 < runeCount text := by
  obtain ⟨b, rest, rfl⟩ := List.exists_cons_of_ne_nil nonempty
  rw [runeCount, runePieces_cons]
  exact Nat.succ_pos _

/-- The returns at the end of a line begin a rune, wherever they are cut off. -/
theorem withoutReturns_split (line : Bytes) :
    ∃ returns, line = withoutReturns line ++ returns ∧ ∀ front, Seam front returns := by
  obtain ⟨returns, parts, all⟩ := dropEndWhile_append (· == carriageReturn) line
  refine ⟨returns, parts, fun front => ?_⟩
  cases returns with
  | nil => exact .nil_right _
  | cons b more =>
    obtain rfl : b = carriageReturn := by simpa using all b List.mem_cons_self
    exact .before_low (by decide) _ more

end Text

open Text Scan

def Word (text : Bytes) : Prop := text ≠ [] ∧ ∀ b ∈ text, isSpace b = false

namespace Word
variable {text : Bytes}

theorem no_newline (word : Word text) : newline ∉ text := by
  intro member
  have other := word.2 _ member
  revert other
  decide

theorem no_return (word : Word text) : ∀ b ∈ text, (b == carriageReturn) = false := by
  intro b member
  refine beq_false_of_ne ?_
  rintro rfl
  have other := word.2 _ member
  revert other
  decide

end Word

namespace Scan

theorem word_of_longest {word rest : Bytes} {kind : TokenKind} (nonempty : word ≠ [])
    (longest : longestMatch (word ++ rest) = ⟨kind, word.length⟩) (solid : kind ≠ .whitespace)
    (code : kind ≠ .comment) : Word word := by
  refine ⟨nonempty, fun c member => ?_⟩
  cases blank : isSpace c with
  | false => rfl
  | true =>
    exfalso
    obtain ⟨first, more, rfl⟩ := List.exists_cons_of_ne_nil nonempty
    by_cases starts : isSpace first = true
    · rw [List.cons_append, longestMatch_blank starts] at longest
      exact solid (congrArg Match.kind longest).symm
    by_cases comment : first = byte ';'
    · rw [comment, List.cons_append, longestMatch_comment] at longest
      exact code (congrArg Match.kind longest).symm
    have inside : c ∈ more := by
      rcases List.mem_cons.mp member with rfl | later
      · exact absurd blank starts
      · exact later
    obtain ⟨front, back, rfl⟩ := List.append_of_mem inside
    have inert := blank_inert blank (back ++ rest)
    have parts : first :: (front ++ c :: back) ++ rest = first :: front ++ c :: (back ++ rest) := by
      simp
    rw [parts, longestMatch_append front (Bool.eq_false_iff.mpr starts) comment inert] at longest
    have bound := longestMatch_width_le (first :: front)
    rw [longest] at bound
    simp only [List.length_cons, List.length_append] at bound
    omega

theorem Barren.word {rest run : Bytes} (barren : Barren rest run) (nonempty : run ≠ []) :
    Word run := by
  refine ⟨nonempty, fun c member => ?_⟩
  cases blank : isSpace c with
  | false => rfl
  | true =>
    exfalso
    obtain ⟨front, back, rfl⟩ := List.append_of_mem member
    have runes : runePieces (front ++ c :: back) = runePieces front ++ runePieces (c :: back) :=
      Seam.before_low (low_byte c (.inl blank)) front back
    have unmatched := barren.no_match runes (by rw [runePieces_cons]; exact List.cons_ne_nil _ _)
    rw [flatten_runePieces, List.cons_append, longestMatch_blank blank] at unmatched
    simp [run] at unmatched

end Scan

/-- The text stands at the place in its line, with the one part of the line before it and the other
    behind it, and no rune reaches over its ends. -/
structure InLine (source : Bytes) (p : Position) (text before behind : Bytes) : Prop where
  counted : 0 < p.line
  line : (lines source)[p.line - 1]? = some (before ++ (text ++ behind))
  front : Seam before (text ++ behind)
  back : Seam text behind
  column : p.column = 1 + runeCount before

namespace InLine
variable {source text before behind : Bytes} {p : Position}

theorem of_cut {front rest : Bytes} (seam : Seam front (text ++ rest)) (apart : Seam text rest)
    (one : newline ∉ text) :
    InLine (front ++ (text ++ rest)) (Position.start.after front) text (lastLine front)
      (firstLine rest) := by
  have line : (Position.start.after front).line = 1 + front.count newline := Position.after_line _ _
  have onward := firstLine_append rest one
  have within := seam.within_line
  have inner := apart.within_line
  rw [onward] at within
  rw [lastLine_of_one one] at inner
  refine ⟨by omega, ?_, within, inner, Position.start_after_column front⟩
  rw [line, Nat.add_sub_cancel_left, lines_at, onward]

theorem of_reached {rest : Bytes} (reached : p.Reached source)
    (here : source.drop p.offset = text ++ rest) (apart : Seam text rest) (one : newline ∉ text) :
    ∃ before behind, InLine source p text before behind := by
  obtain ⟨front, back, rfl, seam, rfl⟩ := reached
  have offset : (Position.start.after front).offset = front.length := by
    rw [Position.after_offset]
    exact Nat.zero_add _
  rw [offset, List.drop_left] at here
  rw [here] at seam ⊢
  exact ⟨_, _, .of_cut seam apart one⟩

theorem shown (inLine : InLine source p text before behind) (word : Word text) :
    withoutReturns (before ++ (text ++ behind)) = before ++ (text ++ withoutReturns behind) ∧
      Seam before (text ++ withoutReturns behind) ∧ Seam text (withoutReturns behind) := by
  obtain ⟨returns, parts, cut⟩ := withoutReturns_split behind
  have front := inLine.front
  have back := inLine.back
  rw [parts] at front back
  rw [← List.append_assoc] at front
  exact ⟨dropEndWhile_behind before behind word.1 word.no_return, (front.between (cut _)).1,
    (back.between (cut _)).1⟩

end InLine

theorem Lexed.ofPieces_solid (p : Position) (ps : List Piece) :
    ∀ t ∈ (ofPieces p ps).tokens, t.kind ≠ .whitespace ∧ t.kind ≠ .comment := by
  induction ps generalizing p with
  | nil => exact fun t member => absurd member List.not_mem_nil
  | cons piece ps ih =>
    obtain ⟨kind, text⟩ := piece
    have later := ih (p.after text)
    by_cases blank : kind = .whitespace ∨ kind = .comment
    · rw [ofPieces_blank blank]
      exact later
    by_cases illegal : kind = .illegal
    · subst illegal
      exact later
    rw [ofPieces_token blank illegal]
    exact List.forall_mem_cons.mpr ⟨not_or.mp blank, later⟩

theorem token_inLine {source : Bytes} {t : Token} (member : t ∈ (tokenize source).tokens) :
    Word t.literal ∧ ∃ before behind, InLine source t.pos t.literal before behind := by
  obtain ⟨nonempty, rest, here, longest⟩ := (tokenize_faithful source).tokens t member
  obtain ⟨solid, code⟩ := Lexed.ofPieces_solid Position.start (pieces source) t member
  have word := word_of_longest nonempty longest solid code
  have reached := places_reached source t.pos (Lexed.mem_places.mpr (.inr (.inl ⟨t, member, rfl⟩)))
  exact ⟨word, InLine.of_reached reached here (word_seam nonempty longest) word.no_newline⟩

theorem error_inLine {source : Bytes} {e : LexError} (member : e ∈ (tokenize source).errors) :
    Word e.text ∧ ∃ before behind, InLine source e.pos e.text before behind := by
  obtain ⟨nonempty, rest, here, barren, -⟩ := (tokenize_faithful source).errors e member
  have word := barren.word nonempty
  have reached := places_reached source e.pos (Lexed.mem_places.mpr (.inr (.inr ⟨e, member, rfl⟩)))
  exact ⟨word, InLine.of_reached reached here barren.seam word.no_newline⟩

theorem finish_inLine (source : Bytes) :
    (tokenize source).finish.line = (lines source).length ∧
      (tokenize source).finish.column = 1 + runeCount (lastLine source) := by
  obtain ⟨front, back, parts, -, finish⟩ :=
    places_reached source (tokenize source).finish (Lexed.mem_places.mpr (.inl rfl))
  have offset := (tokenize_faithful source).finish
  have size := congrArg List.length parts
  rw [finish, Position.after_offset] at offset
  rw [List.length_append] at size
  have start : Position.start.offset = 0 := rfl
  obtain rfl : back = [] := List.length_eq_zero_iff.mp (by omega)
  rw [List.append_nil] at parts
  rw [finish, ← parts, Position.after_line, Position.start_after_column, lines_length]
  exact ⟨Nat.add_comm _ _, rfl⟩

end TurtleLogo
