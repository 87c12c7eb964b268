import TurtleLogo.Proofs.Scan.Places
import TurtleLogo.Proofs.Scan.Solid
import TurtleLogo.Proofs.Text.Lines

/-!
Texts are scanned line by line. A newline ends every piece before it, or makes white space longer;
so what stands behind it is cut as if it stood alone, only further down. Columns begin anew there.
-/
namespace TurtleLogo
open Text Scan

namespace Position

def below (first : Bytes) (p : Position) : Position :=
  ⟨p.offset + (first.length + 1), p.line + (1 + first.count newline), p.column⟩

theorem after_eq (p : Position) (text : Bytes) :
    p.after text = ⟨p.offset + text.length, p.line + text.count newline,
      if newline ∈ text then 1 + runeCount (lastLine text) else p.column + runeCount text⟩ := by
  rw [← after_offset, ← after_line, ← after_column]

theorem below_after (first : Bytes) (p : Position) (text : Bytes) :
    (p.below first).after text = (p.after text).below first := by
  rw [after_eq, after_eq]
  simp only [below, Position.mk.injEq, and_true]
  omega

/-- The column behind a newline does not depend on what is before it. -/
theorem after_gap {p : Position} {front blanks : Bytes} (offset : p.offset = front.length)
    (line : p.line = 1 + front.count newline) (spaces : Bytes) :
    p.after (blanks ++ newline :: spaces) = (start.after spaces).below (front ++ blanks) := by
  have column : (p.after (blanks ++ newline :: spaces)).column = (start.after spaces).column := by
    rw [start_after_column, after_column, if_pos (by simp), lastLine_behind]
  rw [below, ← column, after_offset, after_line, after_eq p, offset, line]
  simp only [start, List.length_append, List.length_cons, List.count_append, List.count_cons_self,
    Position.mk.injEq, and_true]
  omega

end Position

def Token.moved (place : Position → Position) (t : Token) : Token :=
  ⟨t.kind, t.literal, place t.pos⟩

def LexError.moved (place : Position → Position) (e : LexError) : LexError := ⟨place e.pos, e.text⟩

namespace Scan

theorem Cut.flatten {text : Bytes} {ps : List Piece} (cut : Cut text ps) :
    ps.flatMap Piece.text = text := by
  induction ps generalizing text with
  | nil =>
    cases cut
    rfl
  | cons piece ps ih =>
    obtain ⟨rest, rfl, -, later⟩ := cut.uncons
    rw [List.flatMap_cons, ih later]

end Scan

namespace Lexed

def moved (place : Position → Position) (l : Lexed) : Lexed :=
  ⟨l.tokens.map (Token.moved place), l.errors.map (LexError.moved place), place l.finish⟩

def join (l more : Lexed) : Lexed := ⟨l.tokens ++ more.tokens, l.errors ++ more.errors, more.finish⟩

theorem join_assoc (l mid more : Lexed) : (l.join mid).join more = l.join (mid.join more) := by
  simp only [join, List.append_assoc]

theorem moved_join (place : Position → Position) (l more : Lexed) :
    (l.join more).moved place = (l.moved place).join (more.moved place) := by
  simp only [moved, join, List.map_append]

theorem ofPieces_cons (p : Position) (piece : Piece) (rest : List Piece) :
    ofPieces p (piece :: rest) =
      (ofPieces p [piece]).join (ofPieces (p.after piece.text) rest) := by
  obtain ⟨kind, text⟩ := piece
  cases kind <;> rfl

theorem ofPieces_one_moved {place : Position → Position} {p : Position} {piece : Piece}
    (ends : (place p).after piece.text = place (p.after piece.text)) :
    ofPieces (place p) [piece] = (ofPieces p [piece]).moved place := by
  obtain ⟨kind, text⟩ := piece
  unfold ofPieces ofPieces
  rw [ends]
  cases kind <;> rfl

theorem ofPieces_below (first : Bytes) (p : Position) (ps : List Piece) :
    ofPieces (p.below first) ps = (ofPieces p ps).moved (Position.below first) := by
  induction ps generalizing p with
  | nil => rfl
  | cons piece ps ih =>
    rw [ofPieces_cons, ofPieces_cons p, moved_join, Position.below_after, ih,
      ofPieces_one_moved (Position.below_after first p piece.text)]

theorem ofPieces_append (p : Position) (front back : List Piece) :
    ofPieces p (front ++ back) =
      (ofPieces p front).join (ofPieces (ofPieces p front).finish back) := by
  induction front generalizing p with
  | nil => rfl
  | cons piece front ih =>
    rw [List.cons_append, ofPieces_cons, ih, ofPieces_cons p piece front, join_assoc]
    rfl

theorem ofPieces_white {ps : List Piece} (white : ∀ q ∈ ps, q.kind = .whitespace) (p : Position) :
    (ofPieces p ps).tokens = [] ∧ (ofPieces p ps).errors = [] := by
  induction ps generalizing p with
  | nil => exact ⟨rfl, rfl⟩
  | cons piece ps ih =>
    have later := ih (fun q member => white q (List.mem_cons_of_mem piece member))
      (p.after piece.text)
    unfold ofPieces
    rw [white piece List.mem_cons_self]
    exact later

theorem ofPieces_finish (p : Position) (ps : List Piece) :
    (ofPieces p ps).finish.offset = p.offset + (ps.flatMap Piece.text).length ∧
      (ofPieces p ps).finish.line = p.line + (ps.flatMap Piece.text).count newline := by
  induction ps generalizing p with
  | nil => exact ⟨rfl, rfl⟩
  | cons piece ps ih =>
    have same : (ofPieces p (piece :: ps)).finish = (ofPieces (p.after piece.text) ps).finish := by
      rw [ofPieces_cons]
      rfl
    obtain ⟨offset, line⟩ := ih (p.after piece.text)
    rw [same, offset, line, Position.after_offset, Position.after_line, List.flatMap_cons,
      List.length_append, List.count_append, Nat.add_assoc, Nat.add_assoc]
    exact ⟨rfl, rfl⟩

end Lexed

theorem tokenize_spaces (source : Bytes) :
    tokenize source = Lexed.ofPieces (Position.start.after (source.takeWhile isSpace))
      (pieces (source.dropWhile isSpace)) := by
  cases source with
  | nil => rfl
  | cons b rest =>
    by_cases blank : isSpace b = true
    · rw [tokenize, pieces_blank blank, List.takeWhile_cons_of_pos blank,
        List.dropWhile_cons_of_pos blank]
      rfl
    · rw [tokenize, List.takeWhile_cons_of_neg blank, List.dropWhile_cons_of_neg blank]
      rfl

/-- The second text is scanned as if it stood alone, and what it holds is moved down. -/
theorem tokenize_append (first second : Bytes) :
    tokenize (first ++ newline :: second) =
      (tokenize first).join ((tokenize second).moved (Position.below first)) := by
  obtain ⟨front, tail, cut, white, behind⟩ := pieces_append_newline first
  obtain ⟨gap, whole⟩ := behind second
  have first_eq : front.flatMap Piece.text ++ tail.flatMap Piece.text = first := by
    rw [← List.flatMap_append, ← cut, (cut_pieces first).flatten]
  have gap_eq : gap =
      tail.flatMap Piece.text ++ newline :: second.takeWhile isSpace := by
    have texts := congrArg (List.flatMap Piece.text) whole
    rw [(cut_pieces _).flatten, List.flatMap_append, List.flatMap_cons,
      (cut_pieces _).flatten, ← first_eq, List.append_assoc] at texts
    have rest := List.append_cancel_left texts
    apply List.append_cancel_right
    rw [← rest, List.append_assoc, List.cons_append, List.takeWhile_append_dropWhile]
  obtain ⟨offset, line⟩ := Lexed.ofPieces_finish Position.start front
  have onward : (Lexed.ofPieces Position.start front).finish.after gap =
      (Position.start.after (second.takeWhile isSpace)).below first := by
    rw [gap_eq, ← first_eq]
    exact Position.after_gap (by rw [offset]; exact Nat.zero_add _) line _
  obtain ⟨no_token, no_error⟩ :=
    Lexed.ofPieces_white white (Lexed.ofPieces Position.start front).finish
  have gone : Lexed.ofPieces (Lexed.ofPieces Position.start front).finish
      (⟨.whitespace, gap⟩ :: pieces (second.dropWhile isSpace)) =
        (tokenize second).moved (Position.below first) := by
    rw [tokenize_spaces, ← Lexed.ofPieces_below, ← onward]
    rfl
  have own : tokenize first = Lexed.ofPieces Position.start (front ++ tail) := by
    rw [← cut, tokenize]
  rw [own, tokenize, whole, Lexed.ofPieces_append, gone, Lexed.ofPieces_append]
  simp only [Lexed.join, no_token, no_error, List.append_nil]

/-- What stands in front of a newline and what stands behind it is scanned apart: there are the
    tokens of the first text without its end, then those of the second, and so with the errors.
    Those of the second stand further down by the first text and the newline, in the same columns.
    -/
theorem lexing_goes_line_by_line (first second : Bytes) :
    (tokenize (first ++ newline :: second)).allTokens =
      (tokenize first).tokens ++
        (tokenize second).allTokens.map (Token.moved (Position.below first)) ∧
    (tokenize (first ++ newline :: second)).errors =
      (tokenize first).errors ++
        (tokenize second).errors.map (LexError.moved (Position.below first)) := by
  rw [tokenize_append]
  refine ⟨?_, rfl⟩
  simp only [Lexed.allTokens, Lexed.join, Lexed.moved, Lexed.endToken, List.map_append,
    List.map_cons, List.map_nil, List.append_assoc, Token.moved]

def Token.piece (t : Token) : Piece := ⟨t.kind, t.literal⟩

def tokenPieces (source : Bytes) : List Piece := (tokenize source).tokens.map Token.piece

def tokensAt (source : Bytes) (among : Nat → Bool) : List Token :=
  (tokenize source).tokens.filter fun t => among t.pos.line

theorem tokenPieces_append (first second : Bytes) :
    tokenPieces (first ++ newline :: second) = tokenPieces first ++ tokenPieces second := by
  rw [tokenPieces, tokenize_append, Lexed.join, Lexed.moved, List.map_append, List.map_map]
  rfl

theorem tokenPieces_lines (source : Bytes) :
    tokenPieces source = (lines source).flatMap tokenPieces := by
  induction source using first_line_induction with
  | one line one => rw [lines_of_one one, List.flatMap_singleton]
  | more line rest one ih =>
    rw [tokenPieces_append, lines_append_newline rest one, List.flatMap_cons, ← ih]

theorem token_line {source : Bytes} {t : Token} (member : t ∈ (tokenize source).tokens) :
    t.pos.line = 1 + (source.take t.pos.offset).count newline :=
  (places_reached source t.pos (Lexed.mem_places.mpr (.inr (.inl ⟨t, member, rfl⟩)))).exact.line

theorem token_line_of_one {line : Bytes} (one : newline ∉ line) {t : Token}
    (member : t ∈ (tokenize line).tokens) : t.pos.line = 1 := by
  rw [token_line member, List.count_eq_zero_of_not_mem fun inside =>
    one (List.mem_of_mem_take inside)]

theorem tokensAt_of_one {line : Bytes} (one : newline ∉ line) (among : Nat → Bool) :
    (tokensAt line among).map Token.piece = if among 1 then tokenPieces line else [] := by
  have first : ∀ t ∈ (tokenize line).tokens, among t.pos.line = among 1 := fun t member => by
    rw [token_line_of_one one member]
  rw [tokensAt, List.filter_congr first]
  cases among 1 <;> simp [tokenPieces]

theorem tokensAt_append {line : Bytes} (one : newline ∉ line) (rest : Bytes) (among : Nat → Bool) :
    (tokensAt (line ++ newline :: rest) among).map Token.piece =
      (tokensAt line among).map Token.piece ++
        (tokensAt rest fun n => among (n + 1)).map Token.piece := by
  have below : ∀ t : Token, (t.moved (Position.below line)).pos.line = t.pos.line + 1 := by
    intro t
    rw [Token.moved, Position.below, List.count_eq_zero_of_not_mem one]
  rw [tokensAt, tokenize_append, Lexed.join, Lexed.moved, List.filter_append, List.map_append,
    List.filter_map, List.map_map]
  simp only [Function.comp_def, below]
  rfl

theorem tokensAt_none {among : Nat → Bool} (unasked : ∀ n, among (n + 1) = false) (source : Bytes) :
    tokensAt source among = [] := by
  refine List.filter_eq_nil_iff.mpr fun t member => ?_
  rw [token_line member, Nat.add_comm, unasked]
  exact Bool.false_ne_true

theorem tokens_of_line {source line : Bytes} {front back : List Bytes}
    (cut : lines source = front ++ line :: back) :
    (tokensAt source (· < front.length + 1)).map Token.piece = front.flatMap tokenPieces ∧
      (tokensAt source (· == front.length + 1)).map Token.piece = tokenPieces line := by
  induction source using first_line_induction generalizing front with
  | one text one =>
    rw [lines_of_one one] at cut
    rw [tokensAt_of_one one, tokensAt_of_one one]
    cases front with
    | nil =>
      obtain ⟨rfl, -⟩ := List.cons.inj cut
      simp
    | cons other front => simp at cut
  | more first rest one ih =>
    rw [lines_append_newline rest one] at cut
    rw [tokensAt_append one, tokensAt_append one, tokensAt_of_one one, tokensAt_of_one one]
    cases front with
    | nil =>
      obtain ⟨rfl, -⟩ := List.cons.inj cut
      rw [tokensAt_none (by simp) rest, tokensAt_none (by simp) rest]
      simp
    | cons other front =>
      obtain ⟨rfl, later⟩ := List.cons.inj cut
      obtain ⟨above, here⟩ := ih later
      simp [← above, ← here]

end TurtleLogo
