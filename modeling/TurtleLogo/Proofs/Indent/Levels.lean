import TurtleLogo.Proofs.Indent.Settled
import TurtleLogo.Proofs.Parse.Blocks
import TurtleLogo.Proofs.Scan.Lines

/-!
Indentation is nesting. The layout scans one line after the other, and what it finds are the tokens
of the whole text. So its depth is the nesting of all tokens above a line, which is never negative
in a program. Less the tokens that close blocks at the beginning of the line, it is the number of
blocks that are open there and remain open behind these tokens.
-/
namespace TurtleLogo
open Text Scan

/-- How many blocks of a program are open where a line begins and are not closed by the tokens with
    which it begins. Lines count from one. -/
def Program.level (p : Program) (line : Nat) : Nat :=
  let above := (tokensAt p.source (· < line)).length
  let closed := closersAhead ((tokensAt p.source (· == line)).map Token.kind)
  p.blocks.countP fun b => b.isOpen above && !(b.closer < above + closed)

/-- The text has the tokens and the contents of the lines of a program, and its lines are indented
    by two spaces for each level. -/
structure Program.Indented (p : Program) (text : Bytes) : Prop where
  tokens : tokenPieces text = tokenPieces p.source
  contents : ((lines text).map trim).rdropWhile List.isEmpty =
    ((lines p.source).map trim).rdropWhile List.isEmpty
  ending : ∃ body, text = body ++ [newline] ∧ body.getLast? ≠ some newline
  indents : ∀ above line below, lines p.source = above ++ line :: below → trim line ≠ [] →
    (lines text)[above.length]? =
      some (List.replicate (2 * p.level (above.length + 1)) space ++ trim line)

namespace Indent

/-- What the layout finds in a line below some others are the tokens of the text, and the depth need
    not be kept from becoming negative, neither at the beginning of the line nor within it. -/
structure Follows (source : Bytes) (above : List Bytes) (line : Bytes) : Prop where
  tokens : tokenPieces (trim line) = (tokensAt source (· == above.length + 1)).map Token.piece
  closers : leadingClosers (tokenize (trim line)).tokens ≤ reached 0 above
  depths : ∀ front t back, (tokenize (trim line)).tokens = front ++ t :: back →
    0 ≤ ((front.foldl deepen (reached 0 above) : Nat) : Int) + t.kind.nesting

theorem leadingClosers_eq (ts : List Token) :
    leadingClosers ts = closersAhead (ts.map Token.kind) := by
  rw [leadingClosers, closersAhead, List.takeWhile_map, List.length_map]
  simp only [Function.comp_def, closes_iff]

theorem foldl_deepen {depth : Nat} {ts : List Token}
    (never : ∀ n, 0 ≤ (depth : Int) + nestingOf ((ts.map Token.kind).take n)) :
    ((ts.foldl deepen depth : Nat) : Int) = depth + nestingOf (ts.map Token.kind) := by
  induction ts generalizing depth with
  | nil => simp
  | cons t ts ih =>
    have now : 0 ≤ (depth : Int) + t.kind.nesting := by simpa using never 1
    have step : (deepen depth t : Int) = depth + t.kind.nesting := Int.toNat_of_nonneg now
    have onward : ∀ n, 0 ≤ (deepen depth t : Int) + nestingOf ((ts.map Token.kind).take n) := by
      intro n
      have further := never (n + 1)
      rw [List.map_cons, List.take_succ_cons, nestingOf_cons] at further
      omega
    rw [List.foldl_cons, ih onward, step, List.map_cons, nestingOf_cons, Int.add_assoc]

theorem tokenPieces_trim {line : Bytes} (legal : Legal line) (one : newline ∉ line) :
    tokenPieces (trim line) = tokenPieces line := by
  have same := solid_trim legal one
  have still : Legal (trim line) := by rwa [Legal, same]
  exact (tokenize_tokens still).trans (same.trans (tokenize_tokens legal).symm)

theorem layout_contents (depth : Nat) (ls : List Bytes) :
    (layout depth ls).map trim = ls.map trim := by
  induction ls generalizing depth with
  | nil => rfl
  | cons line ls ih =>
    by_cases blank : trim line = []
    · rw [layout_blank blank, List.map_cons, List.map_cons, ih, blank]
      rfl
    · rw [layout_full blank, List.map_cons, List.map_cons, ih, trim_indented, trim_trim]

def kindsOf (ls : List Bytes) : List TokenKind := (ls.flatMap tokenPieces).map Piece.kind

theorem tokenKinds_lines {source line : Bytes} {above below : List Bytes}
    (cut : lines source = above ++ line :: below) :
    tokenKinds source = kindsOf above ++ (kindsOf [line] ++ kindsOf below) := by
  have whole : tokenKinds source = kindsOf (lines source) := by
    rw [kindsOf, ← tokenPieces_lines, tokenPieces, List.map_map]
    rfl
  rw [whole, cut, kindsOf, kindsOf, kindsOf, kindsOf, ← List.map_append, ← List.map_append,
    ← List.flatMap_append, ← List.flatMap_append]
  rfl

theorem found_kinds {ls : List Bytes} (all : ∀ line ∈ ls, Legal line ∧ newline ∉ line) :
    (found ls).map Token.kind = kindsOf ls := by
  rw [found, kindsOf, List.map_flatMap, List.map_flatMap]
  refine List.flatMap_congr fun line member => ?_
  rw [← tokenPieces_trim (all line member).1 (all line member).2, tokenPieces, List.map_map]
  rfl

section
variable {source line : Bytes} {p : Program} {above below : List Bytes}
  (accepted : parse source = .ok p) (cut : lines source = above ++ line :: below)
include accepted

theorem nesting_nonneg {w rest : List TokenKind} (parts : tokenKinds source = w ++ rest) :
    0 ≤ nestingOf w := by
  have leaves := tracked_leavesOpen accepted w.length
  rw [parts, List.take_left] at leaves
  rw [leaves.nesting_eq]
  omega

include cut

theorem lines_legal : ∀ other ∈ above ++ [line], Legal other ∧ newline ∉ other := by
  intro other member
  have legal : Legal source := (tokenize_errors source).mp (parse_eq_ok_iff.mp accepted).1
  have among : other ∈ lines source := by
    rw [cut]
    exact List.mem_append.mpr ((List.mem_append.mp member).imp_right fun here =>
      List.mem_cons.mpr (.inl (List.mem_singleton.mp here)))
  exact ⟨legal_line legal among, newline_not_mem_line source other among⟩

theorem reached_eq : ((reached 0 above : Nat) : Int) = nestingOf (kindsOf above) := by
  have kinds := found_kinds fun other member =>
    lines_legal accepted cut other (List.mem_append_left _ member)
  have never : ∀ n, 0 ≤ ((0 : Nat) : Int) + nestingOf (((found above).map Token.kind).take n) := by
    intro n
    have parts := tokenKinds_lines cut
    rw [← List.take_append_drop n (kindsOf above), List.append_assoc] at parts
    rw [kinds]
    simpa using nesting_nonneg accepted parts
  rw [reached, foldl_deepen never, kinds]
  simp

theorem line_kinds : (tokenize (trim line)).tokens.map Token.kind = kindsOf [line] := by
  have kinds := found_kinds fun other member =>
    lines_legal accepted cut other (List.mem_append_right above member)
  rwa [found, List.flatMap_singleton] at kinds

theorem depth_nonneg {w rest : List TokenKind} (parts : kindsOf [line] = w ++ rest) :
    0 ≤ (reached 0 above : Int) + nestingOf w := by
  have whole := tokenKinds_lines cut
  rw [parts, List.append_assoc, ← List.append_assoc] at whole
  have within := nesting_nonneg accepted whole
  rwa [nestingOf_append, ← reached_eq accepted cut] at within

theorem closers_le : closersAhead (kindsOf [line]) ≤ reached 0 above := by
  have within := depth_nonneg accepted cut
    (List.take_append_drop (closersAhead (kindsOf [line])) (kindsOf [line])).symm
  rw [nestingOf_closers] at within
  omega

theorem follows : Follows source above line := by
  have kinds := line_kinds accepted cut
  refine ⟨?_, ?_, fun front t back parts => ?_⟩
  · have legal := lines_legal accepted cut line (List.mem_append_right _ List.mem_cons_self)
    rw [tokenPieces_trim legal.1 legal.2, (tokens_of_line cut).2]
  · rw [leadingClosers_eq, kinds]
    exact closers_le accepted cut
  · rw [parts, List.map_append, List.map_cons] at kinds
    have never : ∀ n, 0 ≤ (reached 0 above : Int) + nestingOf ((front.map Token.kind).take n) := by
      intro n
      rw [← List.take_append_drop n (front.map Token.kind), List.append_assoc] at kinds
      exact depth_nonneg accepted cut kinds.symm
    rw [← List.singleton_append, ← List.append_assoc] at kinds
    have behind := depth_nonneg accepted cut kinds.symm
    rw [foldl_deepen never]
    simpa [Int.add_assoc] using behind

theorem level_eq : p.level (above.length + 1) =
    reached 0 above - leadingClosers (tokenize (trim line)).tokens := by
  obtain ⟨-, -, own⟩ := parse_eq_ok_iff.mp accepted
  obtain ⟨before, here⟩ := tokens_of_line cut
  have size : (tokensAt source (· < above.length + 1)).length = (kindsOf above).length := by
    rw [kindsOf, ← before, List.length_map, List.length_map]
  have kinds : (tokensAt source (· == above.length + 1)).map Token.kind = kindsOf [line] := by
    rw [kindsOf, List.flatMap_singleton, ← here, List.map_map]
    rfl
  have spans := spans_program accepted
  rw [tokenKinds_lines cut] at spans
  have remaining := spans.remaining
  have bound := closers_le accepted cut
  rw [← reached_eq accepted cut, ← size, ← kinds] at remaining
  rw [← kinds] at bound
  rw [leadingClosers_eq, line_kinds accepted cut, ← kinds, Program.level, own]
  omega

theorem layout_line (full : trim line ≠ []) :
    (layout 0 (lines source))[above.length]? =
      some (List.replicate (2 * p.level (above.length + 1)) space ++ trim line) := by
  rw [cut, layout_append, layout_full full, level_eq accepted cut,
    List.getElem?_append_right (by rw [layout_length]), layout_length, Nat.sub_self,
    List.getElem?_cons_zero]

end

theorem formatted_line {source laid : Bytes} {i : Nat} (full : laid ≠ [])
    (here : (layout 0 (lines (unifyEnds source)))[i]? = some laid) :
    (lines (formatted source))[i]? = some laid := by
  obtain ⟨blanks, parts, all⟩ := standing_prefix source
  rw [← parts] at here
  have inside : i < (standing source).length := by
    by_contra behind
    rw [List.getElem?_append_right (Nat.not_lt.mp behind)] at here
    exact full (all laid (List.mem_of_getElem? here))
  have nonempty : standing source ≠ [] := List.ne_nil_of_length_pos (Nat.zero_lt_of_lt inside)
  rw [List.getElem?_append_left inside] at here
  rw [lines_formatted nonempty, List.getElem?_append_left inside, here]

theorem rdropWhile_blanks {ls blanks : List Bytes} (all : ∀ line ∈ blanks, line = []) :
    (ls ++ blanks).rdropWhile List.isEmpty = ls.rdropWhile List.isEmpty := by
  rw [List.rdropWhile, List.reverse_append, List.dropWhile_append_of_pos, ← List.rdropWhile]
  intro line member
  rw [all line (List.mem_reverse.mp member)]
  rfl

theorem formatted_contents (source : Bytes) :
    ((lines (formatted source)).map trim).rdropWhile List.isEmpty =
      ((lines (unifyEnds source)).map trim).rdropWhile List.isEmpty := by
  obtain ⟨blanks, parts, all⟩ := standing_prefix source
  have still : ∀ line ∈ blanks.map trim, line = [] := by
    intro line member
    obtain ⟨blank, listed, rfl⟩ := List.mem_map.mp member
    rw [all blank listed]
    rfl
  rw [← layout_contents 0 (lines (unifyEnds source)), ← parts, List.map_append,
    rdropWhile_blanks still]
  by_cases empty : standing source = []
  · rw [formatted_eq, empty]
    rfl
  · rw [lines_formatted empty, List.map_append, rdropWhile_blanks (by simp [trim]; rfl)]

end Indent

theorem formatted_ending (source : Bytes) :
    ∃ body, formatted source = body ++ [newline] ∧ body.getLast? ≠ some newline := by
  refine ⟨_, rfl, fun ends => ?_⟩
  rw [dropEndWhile, List.getLast?_reverse] at ends
  exact absurd (Indent.head_dropWhile newline ends) (by decide)

theorem tokenPieces_formatted {source : Bytes} (legal : Legal source)
    (unreturned : carriageReturn ∉ source) :
    tokenPieces (formatted source) = tokenPieces source := by
  have kept : solid (formatted source) = solid source := by
    rw [formatted, unifyEnds_of_no_return unreturned, Indent.solid_laidOut legal]
  have still : Legal (formatted source) := by rwa [Legal, kept]
  exact (tokenize_tokens still).trans (kept.trans (tokenize_tokens legal).symm)

/-- A program without carriage returns is laid out with the same tokens and the same contents of its
    lines, blank ones at the end apart, and with one newline at the end. The tokens that the layout
    finds are those of the text, its depth is never kept from becoming negative, and it indents
    every line by two spaces for each block of the program that is open there and not closed at
    once. The blocks are those of the syntax tree: they begin and end at brackets or at the words of
    a definition. -/
theorem indentation_is_nesting {source : Bytes} {p : Program} (accepted : parse source = .ok p)
    (unreturned : carriageReturn ∉ source) :
    p.Indented (formatted source) ∧
    (∀ b ∈ p.blocks, b.Stands 0 (tokenKinds source)) ∧
    ((lines source).flatMap fun line => tokenPieces (trim line)) = tokenPieces source ∧
    ∀ above line below, lines source = above ++ line :: below →
      Indent.Follows source above line := by
  obtain ⟨legal, -, rfl⟩ := parse_eq_ok_iff.mp accepted
  replace legal := (tokenize_errors _).mp legal
  have unified := unifyEnds_of_no_return unreturned
  refine ⟨⟨tokenPieces_formatted legal unreturned, ?_, formatted_ending _, ?_⟩,
    (spans_program accepted).stands, ?_, fun above line below cut =>
      Indent.follows accepted cut⟩
  · rw [Indent.formatted_contents, unified]
  · intro above line below cut full
    have laid := Indent.layout_line accepted cut full
    rw [← unified] at laid
    exact Indent.formatted_line (by simp [full]) laid
  · rw [tokenPieces_lines p.source]
    refine List.flatMap_congr fun line member => ?_
    exact Indent.tokenPieces_trim (Indent.legal_line legal member)
      (newline_not_mem_line _ line member)

/-- Two blocks are closed at the beginning of a line, and a bracket in a comment opens none. -/
theorem indentation_is_nesting_of_closers :
    ∃ p, parse (utf8 "to f :x\nrepeat :x [ ; [\nif :x = :x [ f :x\n] ]\nend\n\n") = .ok p ∧
      p.level 3 = 2 ∧ p.level 4 = 1 ∧
      (lines (formatted p.source))[2]? = some (utf8 "    if :x = :x [ f :x") ∧
      (lines (formatted p.source))[3]? = some (utf8 "  ] ]") ∧
      tokenPieces (formatted p.source) = tokenPieces p.source := by
  obtain ⟨⟨p, accepted, inner, outer⟩, unreturned, cut⟩ :
      (∃ p, parse (utf8 "to f :x\nrepeat :x [ ; [\nif :x = :x [ f :x\n] ]\nend\n\n") = .ok p ∧
        p.level 3 = 2 ∧ p.level 4 = 1) ∧
      carriageReturn ∉ utf8 "to f :x\nrepeat :x [ ; [\nif :x = :x [ f :x\n] ]\nend\n\n" ∧
      lines (utf8 "to f :x\nrepeat :x [ ; [\nif :x = :x [ f :x\n] ]\nend\n\n") =
        [utf8 "to f :x", utf8 "repeat :x [ ; [", utf8 "if :x = :x [ f :x", utf8 "] ]",
          utf8 "end", [], []] := by decide +kernel
  obtain ⟨-, -, own⟩ := parse_eq_ok_iff.mp accepted
  obtain ⟨indented, -⟩ := indentation_is_nesting accepted unreturned
  rw [← own] at indented cut
  have third := indented.indents [utf8 "to f :x", utf8 "repeat :x [ ; ["]
    (utf8 "if :x = :x [ f :x") [utf8 "] ]", utf8 "end", [], []] cut (by decide)
  have fourth := indented.indents
    [utf8 "to f :x", utf8 "repeat :x [ ; [", utf8 "if :x = :x [ f :x"]
    (utf8 "] ]") [utf8 "end", [], []] cut (by decide)
  have inside : [utf8 "to f :x", utf8 "repeat :x [ ; ["].length + 1 = 3 := rfl
  have behind :
      [utf8 "to f :x", utf8 "repeat :x [ ; [", utf8 "if :x = :x [ f :x"].length + 1 = 4 := rfl
  rw [inside, inner] at third
  rw [behind, outer] at fourth
  exact ⟨p, accepted, inner, outer, third, fourth, indented.tokens⟩

end TurtleLogo
