import TurtleLogo.Proofs.Scan.Lines
import TurtleLogo.Proofs.Scan.Munch

/-!
Lines that stand one behind the other with spaces between them. A space ends what a newline ends,
except a comment, which goes on to the end of the text. So the tokens of all lines stay up to the
first one with a comment, and those behind it are lost.
-/
namespace TurtleLogo
open Text

namespace Scan

instance (text : Bytes) : Decidable (Uncommented text) :=
  inferInstanceAs (Decidable (∀ p ∈ pieces text, p.kind ≠ .comment))

theorem kind_of_code {b : UInt8} {text : Bytes} (code : b ≠ byte ';')
    (found : (longestMatch (b :: text)).width ≠ 0) :
    (longestMatch (b :: text)).kind ≠ .comment := by
  intro comment
  obtain ⟨width, more⟩ := Nat.exists_eq_succ_of_ne_zero found
  have size := List.length_take_of_le (longestMatch_width_le (b :: text))
  have parts := List.take_append_drop (longestMatch (b :: text)).width (b :: text)
  generalize behind : (b :: text).drop (longestMatch (b :: text)).width = rest at parts
  rw [more, List.take_succ_cons] at size parts
  have longest : longestMatch (b :: text.take width ++ rest) =
      ⟨.comment, (b :: text.take width).length⟩ := by
    rw [parts, size, ← more, ← comment]
  obtain ⟨line, starts, -⟩ := comment_of_word (List.cons_ne_nil _ _) longest
  exact code (List.cons.inj starts).1

theorem pieces_append_comment {text : Bytes} (one : newline ∉ text)
    (commented : ¬Uncommented text) :
    ∃ front note, pieces text = front ++ [⟨.comment, note⟩] ∧
      ∀ rest, newline ∉ rest →
        ∃ note, pieces (text ++ space :: rest) = front ++ [⟨.comment, note⟩] := by
  induction text using scan_induction with
  | nil => exact absurd (fun p member => absurd member List.not_mem_nil) commented
  | blank b text white ih =>
    rw [List.mem_cons, not_or] at one
    have inner : ¬Uncommented (text.dropWhile isSpace) := by
      refine fun uncommented => commented ?_
      rw [Uncommented, pieces_blank white]
      exact List.forall_mem_cons.mpr ⟨TokenKind.noConfusion, uncommented⟩
    have more : text.dropWhile isSpace ≠ [] := by
      intro ended
      rw [ended] at inner
      exact inner fun p member => absurd member List.not_mem_nil
    replace ih := ih (run isSpace text)
    rw [drop_run] at ih
    have within : newline ∉ text.dropWhile isSpace := fun member =>
      one.2 ((List.dropWhile_sublist _).subset member)
    obtain ⟨front, note, cut, behind⟩ := ih within inner
    refine ⟨⟨.whitespace, b :: text.takeWhile isSpace⟩ :: front, note, ?_, fun rest single => ?_⟩
    · rw [pieces_blank white, cut, List.cons_append]
    · obtain ⟨note, cut⟩ := behind rest single
      obtain ⟨taken, dropped⟩ := spaces_append (space :: rest) more
      exact ⟨note, by rw [List.cons_append, pieces_blank white, taken, dropped, cut]; rfl⟩
  | comment text ih =>
    rw [List.mem_cons, not_or] at one
    have alone (line : Bytes) (single : newline ∉ line) :
        pieces (byte ';' :: line) = [⟨.comment, byte ';' :: line.takeWhile (· != newline)⟩] := by
      rw [pieces_comment, dropWhile_of_not_mem single]
      rfl
    have apart : newline ≠ space := by decide
    refine ⟨[], _, alone text one.2, fun rest single => ⟨_, alone (text ++ space :: rest) ?_⟩⟩
    simp [one.2, single, apart]
  | other b text white code ih =>
    rw [List.mem_cons, not_or] at one
    have within (width : Nat) : newline ∉ text.drop width := fun member =>
      one.2 (List.mem_of_mem_drop member)
    by_cases found : (longestMatch (b :: text)).width = 0
    · obtain ⟨rune, width, cut, also⟩ := pieces_illegal_append white code found (c := space) rfl
      have inner : ¬Uncommented (text.drop width) := by
        refine fun uncommented => commented fun p member comment => ?_
        rw [cut, mem_consIllegal (by simp [comment])] at member
        exact uncommented p member comment
      obtain ⟨front, note, left, behind⟩ := ih width (within width) inner
      refine ⟨consIllegal rune front, note, ?_, fun rest single => ?_⟩
      · rw [cut, left, consIllegal_append (by simp)]
      · obtain ⟨note, later⟩ := behind rest single
        exact ⟨note, by rw [also, later, consIllegal_append (by simp)]⟩
    · obtain ⟨piece, width, -, cut, also⟩ := pieces_append_inert white code found
      have inner : ¬Uncommented (text.drop width) := by
        refine fun uncommented => commented ?_
        have first := cut
        rw [pieces_cons, if_neg found] at first
        rw [Uncommented, cut]
        refine List.forall_mem_cons.mpr ⟨?_, uncommented⟩
        rw [← (List.cons.inj first).1]
        exact kind_of_code code found
      obtain ⟨front, note, left, behind⟩ := ih width (within width) inner
      refine ⟨piece :: front, note, by rw [cut, left, List.cons_append], fun rest single => ?_⟩
      obtain ⟨note, later⟩ := behind rest single
      exact ⟨note, by rw [also _ (blank_inert rfl rest), later, List.cons_append]⟩

theorem solid_append_comment {text rest : Bytes} (one : newline ∉ text) (single : newline ∉ rest)
    (commented : ¬Uncommented text) : solid (text ++ space :: rest) = solid text := by
  obtain ⟨front, note, cut, behind⟩ := pieces_append_comment one commented
  obtain ⟨longer, later⟩ := behind rest single
  have unsolid (note : Bytes) : [(⟨.comment, note⟩ : Piece)].filter Piece.isSolid = [] := rfl
  rw [solid, solid, cut, later, List.filter_append, List.filter_append, unsolid, unsolid]

def keptLines : List Bytes → List Bytes
  | [] => []
  | line :: rest => line :: if Uncommented line then keptLines rest else []

def lostLines : List Bytes → List Bytes
  | [] => []
  | line :: rest => if Uncommented line then lostLines rest else rest

theorem kept_append_lost (ls : List Bytes) : keptLines ls ++ lostLines ls = ls := by
  induction ls with
  | nil => rfl
  | cons line rest ih =>
    rw [keptLines, lostLines]
    split
    · rw [List.cons_append, ih]
    · rfl

theorem solid_spaced {ls : List Bytes} (each : ∀ line ∈ ls, newline ∉ line) :
    solid (joined [space] ls) = (keptLines ls).flatMap solid := by
  induction ls with
  | nil => rfl
  | cons line rest ih =>
    obtain ⟨one, others⟩ := List.forall_mem_cons.mp each
    cases rest with
    | nil => simp [joined, keptLines]
    | cons next more =>
      have parts : joined [space] (line :: next :: more) =
          line ++ space :: joined [space] (next :: more) := by
        simp [joined, List.intercalate]
      have single : newline ∉ joined [space] (next :: more) := by
        intro member
        rcases mem_joined_by member with between | ⟨other, listed, inside⟩
        · exact absurd between (by decide)
        · exact others other listed inside
      rw [parts, keptLines]
      by_cases plain : Uncommented line
      · rw [solid_append_blank rfl (.inr plain), ih others, if_pos plain, List.flatMap_cons]
      · rw [solid_append_comment one single plain, if_neg plain, List.flatMap_singleton]

end Scan

open Scan

theorem tokenPieces_eq (source : Bytes) :
    tokenPieces source = (solid source).filter fun p => p.kind != .illegal := by
  have of_pieces (p : Position) (ps : List Piece) : (Lexed.ofPieces p ps).tokens.map Token.piece =
      (ps.filter Piece.isSolid).filter fun q => q.kind != .illegal := by
    induction ps generalizing p with
    | nil => rfl
    | cons q ps ih =>
      obtain ⟨kind, text⟩ := q
      have later := ih (p.after text)
      by_cases blank : kind = .whitespace ∨ kind = .comment
      · have skipped : ¬Piece.isSolid ⟨kind, text⟩ = true := by
          rcases blank with rfl | rfl <;> exact Bool.false_ne_true
        rw [Lexed.ofPieces_blank blank, List.filter_cons_of_neg skipped, later]
      have taken : Piece.isSolid ⟨kind, text⟩ = true := by
        rw [not_or] at blank
        simp [Piece.isSolid, blank]
      rw [List.filter_cons_of_pos taken]
      by_cases illegal : kind = .illegal
      · subst illegal
        exact later
      · rw [Lexed.ofPieces_token blank illegal, List.map_cons, later,
          List.filter_cons_of_pos (by simpa using illegal)]
        rfl
  exact of_pieces Position.start (pieces source)

section
variable {ls : List Bytes} (each : ∀ line ∈ ls, newline ∉ line)
include each

theorem tokenPieces_spaced :
    tokenPieces (joined [space] ls) = (keptLines ls).flatMap tokenPieces := by
  rw [tokenPieces_eq, solid_spaced each, List.filter_flatMap]
  exact List.flatMap_congr fun line _ => (tokenPieces_eq line).symm

/-- Spaces do for newlines as long as no tokens are behind the first line with a comment. -/
theorem tokenPieces_spaced_iff :
    tokenPieces (joined [space] ls) = tokenPieces (joined [newline] ls) ↔
      ∀ line ∈ lostLines ls, tokenPieces line = [] := by
  have whole : tokenPieces (joined [newline] ls) =
      (keptLines ls).flatMap tokenPieces ++ (lostLines ls).flatMap tokenPieces := by
    rw [← List.flatMap_append, kept_append_lost, tokenPieces_eq, solid_joined, List.filter_flatMap]
    exact List.flatMap_congr fun line _ => (tokenPieces_eq line).symm
  rw [tokenPieces_spaced each, whole, List.self_eq_append_right, List.flatMap_eq_nil_iff]

theorem legal_spaced (legal : Legal (joined [newline] ls)) : Legal (joined [space] ls) := by
  intro p member
  rw [solid_spaced each] at member
  refine legal p ?_
  rw [solid_joined, ← kept_append_lost ls, List.flatMap_append]
  exact List.mem_append_left _ member

end
end TurtleLogo
