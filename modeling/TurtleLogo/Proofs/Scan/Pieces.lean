import TurtleLogo.Proofs.Scan.Words
import TurtleLogo.Proofs.Text.Runes

/-!
How a text falls into pieces, one piece at a time. White space and comments are told by their first
byte; behind any other byte the longest match decides, and no match goes beyond the text. Every
piece takes at least a byte, so the places of tokens grow from one token to the next.
-/
namespace TurtleLogo

namespace Scan
open Text

theorem run_le_length (p : UInt8 → Bool) (text : Bytes) : run p text ≤ text.length :=
  (List.takeWhile_prefix p).length_le

theorem take_run (p : UInt8 → Bool) (text : Bytes) : text.take (run p text) = text.takeWhile p :=
  (List.prefix_iff_eq_take.mp (List.takeWhile_prefix p)).symm

theorem drop_run (p : UInt8 → Bool) (text : Bytes) : text.drop (run p text) = text.dropWhile p := by
  calc text.drop (run p text)
      = (text.takeWhile p ++ text.dropWhile p).drop (text.takeWhile p).length := by
        rw [List.takeWhile_append_dropWhile, run]
    _ = text.dropWhile p := List.drop_left

theorem spellingWidth_le_length (word : String) (text : Bytes) :
    spellingWidth word text ≤ text.length := by
  unfold spellingWidth
  split
  · rename_i begins
    exact (List.isPrefixOf_iff_prefix.mp begins).length_le
  · exact Nat.zero_le _

theorem nameWidth_le_length (text : Bytes) : nameWidth text ≤ text.length := by
  cases text with
  | nil => exact Nat.le_refl _
  | cons b rest =>
    have parts := run_le_length isNamePart rest
    simp only [nameWidth, List.length_cons]
    split <;> omega

theorem sigilWidth_le_length (sigil : UInt8) (text : Bytes) :
    sigilWidth sigil text ≤ text.length := by
  cases text with
  | nil => exact Nat.le_refl _
  | cons b rest =>
    have name := nameWidth_le_length rest
    simp only [sigilWidth, List.length_cons]
    split <;> omega

theorem commentWidth_le_length (text : Bytes) : commentWidth text ≤ text.length := by
  cases text with
  | nil => exact Nat.le_refl _
  | cons b rest =>
    have line := run_le_length (· != newline) rest
    simp only [commentWidth, List.length_cons]
    split <;> omega

theorem numberWidth_le_length (text : Bytes) : numberWidth text ≤ text.length := by
  have whole := run_le_length isDigit text
  have fraction : fractionWidth (text.drop (run isDigit text)) ≤
      (text.drop (run isDigit text)).length := by
    generalize text.drop (run isDigit text) = tail
    cases tail with
    | nil => exact Nat.le_refl _
    | cons b rest =>
      have digits := run_le_length isDigit rest
      simp only [fractionWidth, List.length_cons]
      split <;> omega
  rw [List.length_drop] at fraction
  unfold numberWidth
  omega

theorem pattern_width_le_length (text : Bytes) :
    ∀ q ∈ patterns, q.width text ≤ text.length := by
  intro q member
  simp only [patterns_eq, blankPatterns, sigilPatterns, List.mem_append, List.mem_cons,
    List.mem_map, List.not_mem_nil, or_false] at member
  rcases member with ((((rfl | rfl) | ⟨entry, -, rfl⟩) | ⟨entry, -, rfl⟩) | rfl | rfl | rfl) | rfl
  · exact run_le_length isSpace text
  · exact commentWidth_le_length text
  · exact keywordWidth_le fun word _ => spellingWidth_le_length word text
  · exact spellingWidth_le_length entry.2 text
  · exact numberWidth_le_length text
  · exact sigilWidth_le_length doubleQuote text
  · exact sigilWidth_le_length (byte ':') text
  · exact nameWidth_le_length text

theorem longestMatch_width_le (text : Bytes) : (longestMatch text).width ≤ text.length := by
  refine Nat.le_of_lt_succ (longest_below (Nat.succ_pos _) ?_)
  intro q member
  exact Nat.lt_succ_of_le (pattern_width_le_length text q member)

theorem space_byte {b : UInt8} (blank : isSpace b = true) :
    b = 9 ∨ b = 10 ∨ b = 12 ∨ b = 13 ∨ b = 32 := by
  simpa only [isSpace, Bool.or_eq_true, beq_iff_eq, or_assoc] using blank

theorem longestMatch_blank {b : UInt8} (blank : isSpace b = true) (rest : Bytes) :
    longestMatch (b :: rest) = ⟨.whitespace, run isSpace rest + 1⟩ := by
  rcases space_byte blank with rfl | rfl | rfl | rfl | rfl <;> rfl

theorem longestMatch_comment (rest : Bytes) :
    longestMatch (byte ';' :: rest) = ⟨.comment, run (· != newline) rest + 1⟩ := by
  have only : longestMatch (byte ';' :: rest) =
      Match.longer (byte ';' :: rest) ⟨.illegal, 0⟩ ⟨.comment, commentWidth⟩ := rfl
  have width : commentWidth (byte ';' :: rest) = run (· != newline) rest + 1 := by
    simp [commentWidth, Nat.add_comm]
  rw [only]
  simp [Match.longer, width]

theorem pieces_cons (b : UInt8) (rest : Bytes) :
    pieces (b :: rest) =
      if (longestMatch (b :: rest)).width = 0 then
        consIllegal ((b :: rest).take (firstRune (b :: rest)).width)
          (pieces ((b :: rest).drop (firstRune (b :: rest)).width))
      else
        ⟨(longestMatch (b :: rest)).kind, (b :: rest).take (longestMatch (b :: rest)).width⟩ ::
          pieces ((b :: rest).drop (longestMatch (b :: rest)).width) := by
  have dropped : ∀ width, 0 < width →
      piecesFrom (width - 1) rest = pieces ((b :: rest).drop width) := by
    intro width positive
    obtain ⟨k, rfl⟩ : ∃ k, width = k + 1 := ⟨width - 1, by omega⟩
    rw [Nat.add_sub_cancel, piecesFrom_eq_drop, List.drop_succ_cons]
  rw [pieces, piecesFrom]
  simp only [beq_iff_eq]
  split
  · rw [dropped _ (firstRune_width b rest).1]
  · rename_i some_width
    rw [dropped _ (Nat.pos_of_ne_zero some_width)]

theorem pieces_blank {b : UInt8} (blank : isSpace b = true) (rest : Bytes) :
    pieces (b :: rest) =
      ⟨.whitespace, b :: rest.takeWhile isSpace⟩ :: pieces (rest.dropWhile isSpace) := by
  rw [pieces_cons, longestMatch_blank blank, if_neg (Nat.succ_ne_zero _)]
  simp only [List.take_succ_cons, List.drop_succ_cons, take_run, drop_run]

theorem pieces_comment (rest : Bytes) :
    pieces (byte ';' :: rest) =
      ⟨.comment, byte ';' :: rest.takeWhile (· != newline)⟩ ::
        pieces (rest.dropWhile (· != newline)) := by
  rw [pieces_cons, longestMatch_comment, if_neg (Nat.succ_ne_zero _)]
  simp only [List.take_succ_cons, List.drop_succ_cons, take_run, drop_run]

/-- Induction over a text the way it is cut: behind a comment, or behind any number of bytes. -/
theorem scan_induction {P : Bytes → Prop} (nil : P [])
    (blank : ∀ b rest, isSpace b = true → (∀ k, P (rest.drop k)) → P (b :: rest))
    (comment : ∀ rest, P (rest.dropWhile (· != newline)) → P (byte ';' :: rest))
    (other : ∀ b rest, isSpace b = false → b ≠ byte ';' → (∀ k, P (rest.drop k)) → P (b :: rest))
    (text : Bytes) : P text := by
  induction size : text.length using Nat.strongRecOn generalizing text with
  | ind n ih =>
    cases text with
    | nil => exact nil
    | cons b rest =>
      rw [List.length_cons] at size
      have behind : ∀ k, P (rest.drop k) := by
        intro k
        refine ih _ ?_ _ rfl
        rw [List.length_drop]
        omega
      by_cases space : isSpace b = true
      · exact blank b rest space behind
      · by_cases semicolon : b = byte ';'
        · subst semicolon
          exact comment rest (drop_run (· != newline) rest ▸ behind _)
        · exact other b rest (by simpa using space) semicolon behind

theorem consIllegal_texts {rune : Bytes} {ps : List Piece} (nonempty : rune ≠ [])
    (all : ∀ p ∈ ps, p.text ≠ []) : ∀ p ∈ consIllegal rune ps, p.text ≠ [] := by
  unfold consIllegal
  split
  · simpa using nonempty
  · rename_i p rest
    split
    · intro q member
      rcases List.mem_cons.mp member with rfl | later
      · simp [nonempty]
      · exact all q (List.mem_cons_of_mem p later)
    · intro q member
      rcases List.mem_cons.mp member with rfl | later
      · exact nonempty
      · exact all q later

theorem piece_text_ne_nil (text : Bytes) : ∀ p ∈ pieces text, p.text ≠ [] := by
  induction size : text.length using Nat.strongRecOn generalizing text with
  | ind n ih =>
    cases text with
    | nil => simp [pieces, piecesFrom]
    | cons b rest =>
      have taken : ∀ width, 0 < width → (b :: rest).take width ≠ [] := by
        intro width positive
        simp only [ne_eq, List.take_eq_nil_iff, reduceCtorEq, or_false]
        omega
      have left : ∀ width, 0 < width → ∀ p ∈ pieces ((b :: rest).drop width), p.text ≠ [] := by
        intro width positive
        refine ih _ ?_ _ rfl
        rw [List.length_drop]
        simp only [List.length_cons] at size ⊢
        omega
      rw [pieces_cons]
      split
      · have rune := (firstRune_width b rest).1
        exact consIllegal_texts (taken _ rune) (left _ rune)
      · rename_i some_width
        have width := Nat.pos_of_ne_zero some_width
        intro p member
        rcases List.mem_cons.mp member with rfl | later
        · exact taken _ width
        · exact left _ width p later

end Scan

namespace Position

theorem after_offset (p : Position) (text : Text.Bytes) :
    (p.after text).offset = p.offset + text.length := by
  have counted : ∀ (pieces : List (Text.Rune × Text.Bytes)) (q : Position),
      (pieces.foldl afterRune q).offset = q.offset + (pieces.flatMap Prod.snd).length := by
    intro pieces
    induction pieces with
    | nil => intro q; rfl
    | cons piece rest ih =>
      intro q
      have one : (q.afterRune piece).offset = q.offset + piece.2.length := by
        unfold afterRune
        split <;> rfl
      rw [List.foldl_cons, ih, one, List.flatMap_cons, List.length_append, Nat.add_assoc]
  rw [after, counted, Text.flatten_runePieces]

end Position

theorem ofPieces_increasing (ps : List Scan.Piece) (p : Position)
    (nonempty : ∀ piece ∈ ps, piece.text ≠ []) :
    (∀ t ∈ (Lexed.ofPieces p ps).tokens, p.offset ≤ t.pos.offset) ∧
      (Lexed.ofPieces p ps).tokens.Pairwise (·.pos.offset < ·.pos.offset) := by
  induction ps generalizing p with
  | nil => exact ⟨nofun, .nil⟩
  | cons piece rest ih =>
    obtain ⟨later, ordered⟩ := ih (p.after piece.text) fun other member =>
      nonempty other (List.mem_cons_of_mem piece member)
    have size := List.length_pos_iff.mpr (nonempty piece List.mem_cons_self)
    rw [Position.after_offset] at later
    have behind : ∀ t ∈ (Lexed.ofPieces (p.after piece.text) rest).tokens,
        p.offset < t.pos.offset := by
      intro t member
      have := later t member
      omega
    have same : (∀ t ∈ (Lexed.ofPieces (p.after piece.text) rest).tokens,
        p.offset ≤ t.pos.offset) ∧ _ := ⟨fun t member => Nat.le_of_lt (behind t member), ordered⟩
    have first : ∀ kind, (∀ t ∈ ⟨kind, piece.text, p⟩ ::
          (Lexed.ofPieces (p.after piece.text) rest).tokens, p.offset ≤ t.pos.offset) ∧
        (⟨kind, piece.text, p⟩ :: (Lexed.ofPieces (p.after piece.text) rest).tokens).Pairwise
          (·.pos.offset < ·.pos.offset) := by
      intro kind
      refine ⟨?_, .cons behind ordered⟩
      intro t member
      rcases List.mem_cons.mp member with rfl | tail
      · exact Nat.le_refl _
      · exact Nat.le_of_lt (behind t tail)
    unfold Lexed.ofPieces
    cases piece.kind <;> first | exact same | exact first _

theorem tokens_increasing (source : Text.Bytes) :
    (tokenize source).tokens.Pairwise (·.pos.offset < ·.pos.offset) :=
  (ofPieces_increasing (Scan.pieces source) Position.start (Scan.piece_text_ne_nil source)).2

end TurtleLogo
