import TurtleLogo.Proofs.Scan.Munch
import TurtleLogo.Proofs.Text.Seam

/-!
Places are exact. The scanner counts lines and columns from one piece of a text to the next. Every
piece is cut off where a rune of the whole text ends, malformed or not, so a place is where the text
before it leads to: its line is told by the newlines before it, and its column by the runes before
it in its line.
-/
namespace TurtleLogo
open Text Scan

namespace Position
variable (p : Position)

theorem after_append {front back : Bytes} (seam : Seam front back) :
    p.after (front ++ back) = (p.after front).after back := by
  rw [after, seam, List.foldl_append, after, after]

theorem after_of_line {line : Bytes} (one : newline ∉ line) :
    p.after line = ⟨p.offset + line.length, p.line, p.column + runeCount line⟩ := by
  have counted : ∀ (pieces : List (Rune × Bytes)) (q : Position),
      (∀ piece ∈ pieces, piece.1 ≠ newline.toNat) →
      pieces.foldl afterRune q =
        ⟨q.offset + (pieces.flatMap Prod.snd).length, q.line, q.column + pieces.length⟩ := by
    intro pieces
    induction pieces with
    | nil => intro q _; rfl
    | cons piece rest ih =>
      intro q within
      have step : q.afterRune piece = ⟨q.offset + piece.2.length, q.line, q.column + 1⟩ :=
        if_neg (by simpa using within piece List.mem_cons_self)
      have others := fun other member => within other (List.mem_cons_of_mem piece member)
      rw [List.foldl_cons, step, ih _ others]
      simp only [List.flatMap_cons, List.length_append, List.length_cons, Position.mk.injEq,
        true_and]
      omega
  rw [after, counted _ p (rune_of_line one), flatten_runePieces, runeCount]

theorem after_one_more {line : Bytes} (text : Bytes) (one : newline ∉ line) :
    p.after (text ++ newline :: line) =
      ⟨p.offset + (text ++ newline :: line).length, (p.after text).line + 1,
       1 + runeCount line⟩ := by
  have ended : ∀ q : Position, q.after (newline :: line) =
      (⟨q.offset + 1, q.line + 1, 1⟩ : Position).after line := fun q =>
    after_append q (.of_low (by decide) line)
  rw [after_append p (.newline_right text line), ended, after_of_line _ one, after_offset]
  simp only [List.length_append, List.length_cons, Position.mk.injEq, and_true]
  omega

theorem after_line (text : Bytes) : (p.after text).line = p.line + text.count newline := by
  induction text using line_induction with
  | one line one => rw [after_of_line p one, List.count_eq_zero_of_not_mem one, Nat.add_zero]
  | more text line one ih =>
    rw [after_one_more p text one, ih, List.count_append, List.count_cons_self,
      List.count_eq_zero_of_not_mem one, Nat.add_assoc]

theorem after_column (text : Bytes) : (p.after text).column =
    if newline ∈ text then 1 + runeCount (lastLine text) else p.column + runeCount text := by
  induction text using line_induction with
  | one line one => rw [after_of_line p one, if_neg one]
  | more text line one _ =>
    rw [after_one_more p text one, if_pos (by simp), lastLine_append text one]

theorem start_after_column (text : Bytes) :
    (start.after text).column = 1 + runeCount (lastLine text) := by
  rw [after_column]
  split
  · rfl
  · rename_i one
    rw [lastLine_of_one one]
    rfl

/-- The place is where a text leads to that is cut off from the source at the end of a rune. -/
def Reached (source : Bytes) (p : Position) : Prop :=
  ∃ front back, source = front ++ back ∧ Seam front back ∧ p = start.after front

/-- Line and column are those of the offset: the newlines before it are counted, and the runes
    before it in its line, as the whole line is decoded. -/
structure Exact (source : Bytes) (p : Position) : Prop where
  inside : p.offset ≤ source.length
  line : p.line = 1 + (source.take p.offset).count newline
  column : ∃ before behind,
    runePieces (lastLine (source.take p.offset) ++ firstLine (source.drop p.offset)) =
      before ++ behind ∧
    before.flatMap Prod.snd = lastLine (source.take p.offset) ∧ p.column = 1 + before.length

def Precedes (p q : Position) : Prop := p.line < q.line ∨ p.line = q.line ∧ p.column < q.column

variable {p : Position} {source : Bytes}

theorem Reached.exact (reached : p.Reached source) : p.Exact source := by
  obtain ⟨front, back, rfl, seam, rfl⟩ := reached
  have offset : (start.after front).offset = front.length := by
    rw [after_offset]
    exact Nat.zero_add _
  refine ⟨?_, ?_, ?_⟩
  · rw [offset, List.length_append]
    omega
  · rw [offset, List.take_left, after_line]
    rfl
  · rw [offset, List.take_left, List.drop_left]
    exact ⟨_, _, seam.within_line, flatten_runePieces _, start_after_column front⟩

theorem after_precedes (p : Position) {text : Bytes} (nonempty : text ≠ []) :
    p.Precedes (p.after text) := by
  unfold Precedes
  rw [after_line, after_column]
  by_cases several : newline ∈ text
  · have := List.count_pos_iff.mpr several
    exact .inl (by omega)
  · obtain ⟨b, rest, rfl⟩ := List.exists_cons_of_ne_nil nonempty
    rw [List.count_eq_zero_of_not_mem several, if_neg several, runeCount, runePieces_cons,
      List.length_cons]
    exact .inr ⟨rfl, by omega⟩

theorem Reached.precedes {q : Position} (first : p.Reached source) (second : q.Reached source)
    (order : p.offset < q.offset) : p.Precedes q := by
  obtain ⟨front, back, parts, seam, rfl⟩ := first
  obtain ⟨longer, rest, whole, later, rfl⟩ := second
  rw [after_offset, after_offset] at order
  rw [parts] at whole
  obtain ⟨mid, rfl, rfl⟩ | ⟨extra, rfl, -⟩ := List.append_eq_append_iff.mp whole
  · have nonempty : mid ≠ [] := by
      rintro rfl
      simp at order
    rw [after_append _ (seam.between later).1]
    exact after_precedes _ nonempty
  · rw [List.length_append] at order
    omega

end Position

namespace Scan

theorem low_byte (b : UInt8) (known : isSpace b = true ∨ isNamePart b = true) : b < 0x80 := by
  have table : ∀ n < 256, isSpace n.toUInt8 = true ∨ isNamePart n.toUInt8 = true →
      n.toUInt8 < 0x80 := by
    decide +kernel
  simpa using table b.toNat b.toNat_lt (by simpa using known)

theorem name_low {name : Bytes} (named : isName name = true) : ∀ b ∈ name, b < 0x80 := by
  cases name with
  | nil => simp
  | cons c rest =>
    simp only [isName, Bool.and_eq_true, List.all_eq_true] at named
    intro b member
    rcases List.mem_cons.mp member with rfl | later
    · exact low_byte b (.inr (by simp [isNamePart, named.1]))
    · exact low_byte b (.inr (named.2 b later))

theorem sigiled_low {sigil : UInt8} (low : sigil < 0x80) {word : Bytes}
    (accepted : isSigiled sigil word = true) : ∀ b ∈ word, b < 0x80 := by
  cases word with
  | nil => simp
  | cons c name =>
    simp only [isSigiled, Bool.and_eq_true, beq_iff_eq] at accepted
    intro b member
    rcases List.mem_cons.mp member with rfl | later
    · exact accepted.1 ▸ low
    · exact name_low accepted.2 b later

theorem decimal_low {word : Bytes} (accepted : isDecimal word = true) : ∀ b ∈ word, b < 0x80 := by
  have digits : ∀ {text : Bytes}, text.all isDigit = true → ∀ b ∈ text, b < 0x80 := by
    intro text all b member
    exact low_byte b (.inr (by simp [isNamePart, List.all_eq_true.mp all b member]))
  unfold isDecimal at accepted
  split at accepted
  · rw [Bool.and_eq_true] at accepted
    exact digits accepted.2
  · rename_i whole fraction cut
    simp only [Bool.and_eq_true] at accepted
    rw [cutAt_eq_some cut]
    intro b member
    rcases List.mem_append.mp member with inside | behind
    · exact digits accepted.1.1 b inside
    · rcases List.mem_cons.mp behind with rfl | later
      · decide
      · exact digits accepted.2 b later

theorem symbols_low : ∀ entry ∈ symbols, ∀ b ∈ utf8 entry.2, b < 0x80 := by
  decide +kernel

theorem rule_word_low {rule : Rule} {word : Bytes} (listed : rule ∈ rules)
    (code : rule.kind ≠ .comment) (accepted : rule.accepts word = true) :
    ∀ b ∈ word, b < 0x80 := by
  simp only [rules, List.mem_append, List.mem_cons, List.mem_map, List.not_mem_nil,
    or_false] at listed
  rcases listed with (((rfl | rfl) | ⟨entry, listed, rfl⟩) | ⟨entry, listed, rfl⟩) |
    rfl | rfl | rfl | rfl
  · simp only [isRun, Bool.and_eq_true, List.all_eq_true] at accepted
    exact fun b member => low_byte b (.inl (accepted.2 b member))
  · exact absurd rfl code
  · obtain ⟨spelling, spelled, same⟩ := List.any_eq_true.mp accepted
    obtain rfl := eq_of_beq same
    have parts := keyword_bytes_are_name_bytes entry listed spelling spelled
    exact fun b member => low_byte b (.inr (List.all_eq_true.mp parts b member))
  · obtain rfl := eq_of_beq accepted
    exact symbols_low entry listed
  · exact decimal_low accepted
  · exact sigiled_low (by decide) accepted
  · exact sigiled_low (by decide) accepted
  · exact name_low accepted

/-- A comment ends in front of a newline, and any other word consists of ASCII. -/
theorem word_seam {word rest : Bytes} {kind : TokenKind} (nonempty : word ≠ [])
    (longest : longestMatch (word ++ rest) = ⟨kind, word.length⟩) : Seam word rest := by
  obtain ⟨rule, found, rfl⟩ := Option.map_eq_some_iff.mp (rule_of_word nonempty longest)
  have accepted := List.find?_some found
  have listed := List.mem_of_find?_eq_some found
  by_cases code : rule.kind = .comment
  · rw [code] at longest
    obtain ⟨line, rfl, ends⟩ := comment_of_word nonempty longest
    have stop := List.head?_dropWhile_not (· != newline) (line ++ rest)
    rw [ends] at stop
    cases rest with
    | nil => exact .nil_right _
    | cons b rest =>
      obtain rfl : b = newline := by simpa using stop
      exact .newline_right _ rest
  · exact .of_all_low (rule_word_low listed code accepted) rest

theorem Barren.seam {rest run : Bytes} (barren : Barren rest run) : Seam run rest := by
  induction barren with
  | nil => exact .nil_left rest
  | @rune run nonempty inside unmatched later ih =>
    obtain ⟨b, tail, rfl⟩ := List.exists_cons_of_ne_nil nonempty
    have own := firstRune_of_inside inside
    rw [← own] at ih inside
    rw [Seam, List.cons_append, runePieces_cons, ← List.cons_append, ← own,
      List.take_append_of_le_length inside, List.drop_append_of_le_length inside, ih,
      runePieces_cons b tail, List.cons_append]

theorem Cut.uncons {text : Bytes} {piece : Piece} {ps : List Piece} (cut : Cut text (piece :: ps)) :
    ∃ rest, text = piece.text ++ rest ∧ Seam piece.text rest ∧ Cut rest ps := by
  cases cut with
  | word nonempty longest later => exact ⟨_, rfl, word_seam nonempty longest, later⟩
  | run nonempty barren ends later => exact ⟨_, rfl, barren.seam, later⟩

end Scan
namespace Lexed

def places (l : Lexed) : List Position := l.allTokens.map Token.pos ++ l.errors.map LexError.pos

theorem mem_places {l : Lexed} {q : Position} :
    q ∈ l.places ↔ q = l.finish ∨ (∃ t ∈ l.tokens, t.pos = q) ∨ ∃ e ∈ l.errors, e.pos = q := by
  simp only [places, allTokens, endToken, List.map_append, List.map_cons, List.map_nil,
    List.mem_append, List.mem_map, List.mem_singleton]
  grind

theorem places_cons (p : Position) (piece : Piece) (rest : List Piece) :
    ∀ q ∈ (ofPieces p (piece :: rest)).places,
      q = p ∨ q ∈ (ofPieces (p.after piece.text) rest).places := by
  intro q member
  rw [mem_places] at member ⊢
  unfold ofPieces at member
  cases kind : piece.kind <;> simp only [kind, List.mem_cons] at member <;> grind

theorem ofPieces_reached {source text front : Bytes} {ps : List Piece} (cut : Cut text ps)
    (parts : source = front ++ text) (seam : Seam front text) :
    ∀ q ∈ (ofPieces (Position.start.after front) ps).places, q.Reached source := by
  induction ps generalizing text front with
  | nil =>
    intro q member
    obtain rfl : q = Position.start.after front := by simpa [mem_places, ofPieces] using member
    exact ⟨front, text, parts, seam, rfl⟩
  | cons piece ps ih =>
    obtain ⟨rest, rfl, apart, later⟩ := cut.uncons
    have onward := seam.append apart
    intro q member
    rcases places_cons _ _ _ q member with rfl | behind
    · exact ⟨front, piece.text ++ rest, parts, seam, rfl⟩
    · rw [← Position.after_append _ (seam.between onward).1] at behind
      exact ih later (by rw [parts, List.append_assoc]) onward q behind

end Lexed

theorem places_reached (source : Bytes) : ∀ p ∈ (tokenize source).places, p.Reached source :=
  Lexed.ofPieces_reached (cut_pieces source) (List.nil_append source).symm (.nil_left source)

theorem allTokens_increasing (source : Bytes) :
    ((tokenize source).allTokens.map Token.pos).Pairwise (·.offset < ·.offset) := by
  have faithful := tokenize_faithful source
  have inside : ∀ t ∈ (tokenize source).tokens, t.pos.offset < (tokenize source).finish.offset := by
    intro t member
    obtain ⟨nonempty, rest, here, -⟩ := faithful.tokens t member
    have size := congrArg List.length here
    have filled := List.length_pos_iff.mpr nonempty
    rw [List.length_drop, List.length_append] at size
    rw [faithful.finish]
    omega
  rw [List.pairwise_map, Lexed.allTokens, List.pairwise_append]
  refine ⟨tokens_increasing source, List.pairwise_singleton _ _, ?_⟩
  intro t member last ended
  obtain rfl := List.mem_singleton.mp ended
  exact inside t member

/-- The place of every token, of the end and of every error is exact: its line is told by the
    newlines before its offset, and its column by the runes before it in its line, as the whole line
    is decoded. The tokens are in strict order of their offsets and of their lines and columns, and
    these two orders agree on all places. -/
theorem places_are_exact (source : Bytes) :
    (∀ p ∈ (tokenize source).places, p.Exact source) ∧
    ((tokenize source).allTokens.map Token.pos).Pairwise
      (fun p q => p.offset < q.offset ∧ p.Precedes q) ∧
    ∀ p ∈ (tokenize source).places, ∀ q ∈ (tokenize source).places,
      p.offset < q.offset → p.Precedes q := by
  have reached := places_reached source
  refine ⟨fun p member => (reached p member).exact, ?_, ?_⟩
  · refine (allTokens_increasing source).imp_of_mem ?_
    intro p q first second order
    have among : ∀ r ∈ (tokenize source).allTokens.map Token.pos, r ∈ (tokenize source).places :=
      fun r member => List.mem_append_left _ member
    exact ⟨order, (reached p (among p first)).precedes (reached q (among q second)) order⟩
  · intro p first q second order
    exact (reached p first).precedes (reached q second) order

/-- A comment with a longer rune, and a rune that is cut short: its two bytes count as two. -/
theorem places_are_exact_of_broken_rune :
    (⟨7, 2, 3⟩ : Position) ∈ (tokenize (utf8 "; ä\n" ++ [0xE2, 0x82] ++ utf8 "fd")).places ∧
      (⟨7, 2, 3⟩ : Position).Exact (utf8 "; ä\n" ++ [0xE2, 0x82] ++ utf8 "fd") ∧
      (⟨5, 2, 1⟩ : Position).Precedes ⟨7, 2, 3⟩ ∧
      runePieces ([0xE2, 0x82] ++ utf8 "fd") =
        [(replacement, [0xE2]), (replacement, [0x82]), (102, [102]), (100, [100])] := by
  obtain ⟨exact, -, order⟩ :=
    places_are_exact (utf8 "; ä\n" ++ [0xE2, 0x82] ++ utf8 "fd")
  have error : (⟨5, 2, 1⟩ : Position) ∈
      (tokenize (utf8 "; ä\n" ++ [0xE2, 0x82] ++ utf8 "fd")).places := by decide +kernel
  have word : (⟨7, 2, 3⟩ : Position) ∈
      (tokenize (utf8 "; ä\n" ++ [0xE2, 0x82] ++ utf8 "fd")).places := by decide +kernel
  exact ⟨word, exact _ word, order _ error _ word (by decide), by decide +kernel⟩

end TurtleLogo
