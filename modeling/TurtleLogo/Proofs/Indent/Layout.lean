import TurtleLogo.Indent
import TurtleLogo.Proofs.Parse.Bare
import TurtleLogo.Proofs.Scan.Solid
import TurtleLogo.Proofs.Text.Lines

/-!
Laying a program out anew keeps the program. The scanner and the layout have different notions of
blanks and of line ends; they agree wherever the text consists of tokens, since a byte that only
one of them takes for a blank is legal nowhere but in a comment. A carriage return within a comment
is the exception: it ends a line of the layout but not the comment.
-/
namespace TurtleLogo
open Text Scan

namespace Text

theorem runePieces_low {b : UInt8} (low : b < 0x80) (rest : Bytes) :
    runePieces (b :: rest) = (b.toNat, [b]) :: runePieces rest := by
  rw [runePieces_cons, firstRune_of_low low]
  rfl

theorem trimStart_suffix (text : Bytes) : ∃ front, text = front ++ trimStart text := by
  refine ⟨((runePieces text).takeWhile fun piece => isBlank piece.1).flatMap Prod.snd, ?_⟩
  rw [trimStart, ← List.flatMap_append, List.takeWhile_append_dropWhile, flatten_runePieces]

theorem trimEnd_append (text : Bytes) :
    ∃ blanks : List (Rune × Bytes), text = trimEnd text ++ blanks.flatMap Prod.snd ∧
      ∀ piece ∈ blanks, piece ∈ runePieces text ∧ isBlank piece.1 = true := by
  refine ⟨((runePieces text).reverse.takeWhile fun piece => isBlank piece.1).reverse, ?_, ?_⟩
  · rw [trimEnd, ← List.flatMap_append, ← List.reverse_append, List.takeWhile_append_dropWhile,
      List.reverse_reverse, flatten_runePieces]
  · intro piece member
    have taken := List.mem_reverse.mp member
    exact ⟨List.mem_reverse.mp (List.takeWhile_subset _ taken),
      List.mem_takeWhile_imp (p := fun piece : Rune × Bytes => isBlank piece.1) taken⟩

end Text

namespace Indent

theorem blank_byte (b : UInt8) (blank : isBlank b.toNat = true) : isInert b = true := by
  have table : ∀ n < 256, isBlank (n.toUInt8).toNat = true → isInert n.toUInt8 = true := by
    decide +kernel
  simpa using table b.toNat b.toNat_lt (by simpa using blank)

theorem high_byte {b : UInt8} (high : ¬b < 0x80) : isInert b = true ∧ isSpace b = false := by
  have above : 0x80 ≤ b := UInt8.not_lt.mp high
  refine ⟨by simp [isInert, above], ?_⟩
  by_contra space
  rcases space_byte (by simpa using space) with rfl | rfl | rfl | rfl | rfl <;>
    exact high (by decide)

theorem legal_rest {b : UInt8} {rest : Bytes} (blank : isSpace b = true)
    (legal : Legal (b :: rest)) : Legal rest := by
  intro p member
  exact legal p (by rwa [solid_space blank])

theorem solid_trimStart {text : Bytes} (legal : Legal text) :
    solid (trimStart text) = solid text := by
  induction text with
  | nil => rfl
  | cons b rest ih =>
    by_cases low : b < 0x80
    · by_cases blank : isBlank b.toNat = true
      · have space := isSpace_of_legal legal (blank_byte b blank)
        have trimmed : trimStart (b :: rest) = trimStart rest := by
          rw [trimStart, runePieces_low low, List.dropWhile_cons, if_pos blank, trimStart]
        rw [trimmed, ih (legal_rest space legal), solid_space space]
      · have kept : trimStart (b :: rest) = b :: rest := by
          rw [trimStart, runePieces_low low, List.dropWhile_cons, if_neg blank,
            ← runePieces_low low, flatten_runePieces]
        rw [kept]
    · obtain ⟨inert, solid⟩ := high_byte low
      have space := isSpace_of_legal legal inert
      rw [solid] at space
      contradiction

theorem blank_rune {text : Bytes} {piece : Rune × Bytes} (member : piece ∈ runePieces text)
    (blank : isBlank piece.1 = true) :
    ∃ b tail, piece.2 = b :: tail ∧ isInert b = true ∧ (isSpace b = true → tail = []) := by
  obtain ⟨b, tail, bytes, alone, -⟩ := mem_runePieces member
  refine ⟨b, tail, bytes, ?_, ?_⟩
  · by_cases low : b < 0x80
    · rw [alone low] at blank
      exact blank_byte b blank
    · exact (high_byte low).1
  · intro space
    have low : b < 0x80 := by
      by_contra high
      rw [(high_byte high).2] at space
      contradiction
    rw [alone low] at bytes
    simpa using bytes.symm

theorem blanks_inert {text : Bytes} {blanks : List (Rune × Bytes)}
    (all : ∀ piece ∈ blanks, piece ∈ runePieces text ∧ isBlank piece.1 = true) :
    Inert (blanks.flatMap Prod.snd) := by
  cases blanks with
  | nil => intro b ahead; simp at ahead
  | cons piece blanks =>
    obtain ⟨member, blank⟩ := all piece List.mem_cons_self
    obtain ⟨c, tail, bytes, inert, -⟩ := blank_rune member blank
    intro b ahead
    rw [List.flatMap_cons, bytes] at ahead
    obtain rfl : c = b := by simpa using ahead
    exact inert

theorem solid_blanks {text : Bytes} {blanks : List (Rune × Bytes)}
    (all : ∀ piece ∈ blanks, piece ∈ runePieces text ∧ isBlank piece.1 = true)
    (legal : Legal (blanks.flatMap Prod.snd)) : solid (blanks.flatMap Prod.snd) = [] := by
  induction blanks with
  | nil => rfl
  | cons piece blanks ih =>
    obtain ⟨member, blank⟩ := all piece List.mem_cons_self
    obtain ⟨c, tail, bytes, inert, alone⟩ := blank_rune member blank
    rw [List.flatMap_cons, bytes, List.cons_append] at legal ⊢
    have space := isSpace_of_legal legal inert
    have rest := legal_rest space legal
    rw [alone space] at rest ⊢
    rw [solid_space space]
    exact ih (fun other later => all other (List.mem_cons_of_mem piece later)) rest

/-- Inert bytes at the end of a line hold no token: they are white space, or the end of a
    comment. -/
theorem solid_append_inert (text : Bytes) {rest : Bytes} (inert : Inert rest)
    (tail : Legal rest → solid rest = []) (one_line : newline ∉ text ++ rest)
    (legal : Legal (text ++ rest)) : solid (text ++ rest) = solid text := by
  induction text using scan_induction with
  | nil => exact tail legal
  | blank b text space ih =>
    rw [List.cons_append, List.mem_cons, not_or] at one_line
    rw [List.cons_append, solid_space space, solid_space space]
    exact ih 0 one_line.2 (legal_rest space legal)
  | comment text ih =>
    rw [List.mem_append, not_or, List.mem_cons, not_or] at one_line
    rw [List.cons_append, solid_comment, solid_comment, dropWhile_of_not_mem one_line.1.2,
      dropWhile_of_not_mem (by simp [one_line])]
  | other b text space code ih =>
    by_cases found : (longestMatch (b :: text)).width = 0
    · rw [← longestMatch_append text space code inert] at found
      exact absurd legal (illegal_of_no_match found)
    · obtain ⟨piece, width, -, cut, also⟩ := pieces_append_inert space code found
      have whole : solid (b :: text ++ rest) =
          [piece].filter Piece.isSolid ++ solid (text.drop width ++ rest) := by
        rw [solid, also rest inert, ← List.singleton_append, List.filter_append, solid]
      have later := ih width ?_ ?_
      · rw [whole, later, solid, solid, cut, ← List.filter_append, List.singleton_append]
      · intro member
        refine one_line ?_
        rcases List.mem_append.mp member with inside | behind
        · exact List.mem_append_left _ (List.mem_cons_of_mem b (List.mem_of_mem_drop inside))
        · exact List.mem_append_right _ behind
      · intro p member
        exact legal p (by rw [whole]; exact List.mem_append_right _ member)

theorem solid_trim {line : Bytes} (legal : Legal line) (one_line : newline ∉ line) :
    solid (trim line) = solid line := by
  have start := solid_trimStart legal
  obtain ⟨front, parts⟩ := trimStart_suffix line
  obtain ⟨blanks, cut, all⟩ := trimEnd_append (trimStart line)
  have inside : newline ∉ trimStart line := by
    intro member
    exact one_line (parts ▸ List.mem_append_right front member)
  have still : Legal (trimEnd (trimStart line) ++ blanks.flatMap Prod.snd) := by
    rw [← cut, Legal, start]
    exact legal
  have whole := solid_append_inert (trimEnd (trimStart line)) (blanks_inert all)
    (solid_blanks all) (cut ▸ inside) still
  rw [← cut] at whole
  rw [trim, ← whole, start]

theorem solid_layout {ls : List Bytes} (depth : Nat)
    (all : ∀ line ∈ ls, Legal line ∧ newline ∉ line) :
    (layout depth ls).flatMap solid = ls.flatMap solid := by
  induction ls generalizing depth with
  | nil => rfl
  | cons line rest ih =>
    have first := solid_trim (all line List.mem_cons_self).1 (all line List.mem_cons_self).2
    have others := fun depth => ih depth fun other member =>
      all other (List.mem_cons_of_mem line member)
    simp only [layout]
    split
    · rename_i blank
      rw [List.isEmpty_iff.mp blank] at first
      rw [List.flatMap_cons, List.flatMap_cons, others, ← first]
    · rw [List.flatMap_cons, List.flatMap_cons, others, solid_spaces, first]

theorem solid_newlines {text tail : Bytes} (all : ∀ b ∈ tail, (b == newline) = true) :
    solid (text ++ tail) = solid text := by
  have blank : ∀ rest : Bytes, (∀ b ∈ rest, (b == newline) = true) → solid rest = [] := by
    intro rest
    induction rest with
    | nil => intro _; rfl
    | cons b rest ih =>
      intro each
      obtain rfl := eq_of_beq (each b List.mem_cons_self)
      rw [solid_space rfl]
      exact ih fun c member => each c (List.mem_cons_of_mem _ member)
  cases tail with
  | nil => rw [List.append_nil]
  | cons b tail =>
    obtain rfl := eq_of_beq (all b List.mem_cons_self)
    rw [solid_append_newline, blank tail fun c member => all c (List.mem_cons_of_mem _ member),
      List.append_nil]

theorem solid_lines (text : Bytes) : (lines text).flatMap solid = solid text := by
  rw [← solid_joined, joined_lines]

theorem legal_line {text line : Bytes} (legal : Legal text) (member : line ∈ lines text) :
    Legal line := by
  intro p inside
  refine legal p ?_
  rw [← solid_lines]
  exact List.mem_flatMap.mpr ⟨line, member, inside⟩

theorem solid_laidOut {text : Bytes} (legal : Legal text) :
    solid (dropEndWhile (· == newline) (joined [newline] (layout 0 (lines text))) ++ [newline]) =
      solid text := by
  have all : ∀ line ∈ lines text, Legal line ∧ newline ∉ line := fun line member =>
    ⟨legal_line legal member, newline_not_mem_line text line member⟩
  obtain ⟨tail, cut, ends⟩ :=
    dropEndWhile_append (· == newline) (joined [newline] (layout 0 (lines text)))
  rw [solid_newlines (by simp), ← solid_newlines ends, ← cut, solid_joined, solid_layout 0 all,
    solid_lines]

/-- Whether the piece is legal and, if it is a comment, has carriage returns only at its end. -/
def Plain (p : Piece) : Prop :=
  p.kind ≠ .illegal ∧ (p.kind = .comment → carriageReturn ∉ withoutReturns p.text)

theorem solid_unifyEnds_space {b : UInt8} (blank : isSpace b = true) (rest : Bytes) :
    solid (unifyEnds (b :: rest)) = solid (unifyEnds rest) := by
  by_cases ends : b = carriageReturn
  · subst ends
    obtain ⟨more, begins, same | same⟩ := unifyEnds_return rest
    · rw [begins, solid_space rfl, same]
    · rw [begins, same]
  · rw [unifyEnds_cons ends, solid_space blank]

theorem solid_unifyEnds_spaces {blanks : Bytes} (all : ∀ b ∈ blanks, isSpace b = true)
    (rest : Bytes) : solid (unifyEnds (blanks ++ rest)) = solid (unifyEnds rest) := by
  induction blanks with
  | nil => rfl
  | cons b blanks ih =>
    rw [List.cons_append, solid_unifyEnds_space (all b List.mem_cons_self)]
    exact ih fun c member => all c (List.mem_cons_of_mem b member)

theorem unifyEnds_inert {text : Bytes} (ends : ∀ b ∈ text.head?, b = carriageReturn ∨ b = newline) :
    Inert text ∧ ∀ b ∈ (unifyEnds text).head?, b = newline := by
  cases text with
  | nil => exact ⟨by simp [Inert], by simp [unifyEnds]⟩
  | cons b text =>
    rcases ends b rfl with rfl | rfl
    · obtain ⟨more, begins, -⟩ := unifyEnds_return text
      rw [begins]
      refine ⟨fun c ahead => ?_, by simp⟩
      obtain rfl : carriageReturn = c := by simpa using ahead
      rfl
    · rw [unifyEnds_cons (by decide)]
      refine ⟨fun c ahead => ?_, by simp⟩
      obtain rfl : newline = c := by simpa using ahead
      rfl

theorem comment_parts {line : Bytes} (plain : carriageReturn ∉ withoutReturns (byte ';' :: line)) :
    ∃ kept returns, line = kept ++ returns ∧ carriageReturn ∉ byte ';' :: kept ∧
      ∀ b ∈ returns, b = carriageReturn := by
  obtain ⟨returns, parts, all⟩ := dropEndWhile_append (· == carriageReturn) (byte ';' :: line)
  have each : ∀ b ∈ returns, b = carriageReturn := fun b member => eq_of_beq (all b member)
  rw [withoutReturns] at plain
  generalize dropEndWhile (· == carriageReturn) (byte ';' :: line) = front at parts plain
  cases front with
  | nil =>
    have first := each (byte ';') (by rw [List.nil_append] at parts; simp [← parts])
    exact absurd first (by decide)
  | cons c kept =>
    rw [List.cons_append] at parts
    obtain ⟨rfl, rfl⟩ := List.cons.inj parts
    exact ⟨kept, returns, rfl, plain, each⟩

theorem head_dropWhile {p : UInt8 → Bool} {text : Bytes} :
    ∀ b ∈ (text.dropWhile p).head?, p b = false := by
  intro b ahead
  have stop := List.head?_dropWhile_not p text
  rw [ahead] at stop
  simpa using stop

theorem solid_unifyEnds_comment {rest : Bytes}
    (plain : carriageReturn ∉ withoutReturns (byte ';' :: rest.takeWhile (· != newline))) :
    solid (unifyEnds (byte ';' :: rest)) =
      solid (unifyEnds (rest.dropWhile (· != newline))) := by
  obtain ⟨kept, returns, line, unreturned, all⟩ := comment_parts plain
  have parts : byte ';' :: rest =
      byte ';' :: kept ++ (returns ++ rest.dropWhile (· != newline)) := by
    rw [List.cons_append, ← List.append_assoc, ← line, List.takeWhile_append_dropWhile]
  have ends : ∀ b ∈ (returns ++ rest.dropWhile (· != newline)).head?,
      b = carriageReturn ∨ b = newline := by
    intro b ahead
    cases returns with
    | nil => exact .inr (by simpa using head_dropWhile b ahead)
    | cons c returns =>
      obtain rfl : c = b := by simpa using ahead
      exact .inl (all c List.mem_cons_self)
  have one_line : ∀ b ∈ kept, (b != newline) = true := by
    intro b member
    have inside := line ▸ List.mem_append_left returns member
    exact List.mem_takeWhile_imp (p := (· != newline)) inside
  rw [parts, unifyEnds_append _ unreturned, List.cons_append, solid_comment,
    List.dropWhile_append_of_pos one_line]
  have spaces : ∀ b ∈ returns, isSpace b = true := by
    intro b member
    rw [all b member]
    rfl
  have blanks := solid_unifyEnds_spaces spaces (rest.dropWhile (· != newline))
  have starts := (unifyEnds_inert ends).2
  rw [← blanks]
  cases later : unifyEnds (returns ++ rest.dropWhile (· != newline)) with
  | nil => rfl
  | cons b more =>
    rw [later] at starts
    obtain rfl := starts b rfl
    rw [List.dropWhile_cons_of_neg (by decide)]

/-- Line ends may be unified unless a carriage return stands within a comment. -/
theorem solid_unifyEnds {source : Bytes} (plain : ∀ p ∈ pieces source, Plain p) :
    solid (unifyEnds source) = solid source := by
  induction source using scan_induction with
  | nil => rfl
  | blank b rest space ih =>
    have blanks : ∀ c ∈ rest.takeWhile isSpace, isSpace c = true :=
      fun c member => List.mem_takeWhile_imp member
    have later := ih (run isSpace rest) fun p member =>
      plain p (by rw [pieces_blank space, ← drop_run]; exact List.mem_cons_of_mem _ member)
    rw [drop_run] at later
    calc solid (unifyEnds (b :: rest))
        = solid (unifyEnds (rest.takeWhile isSpace ++ rest.dropWhile isSpace)) := by
          rw [solid_unifyEnds_space space, List.takeWhile_append_dropWhile]
      _ = solid (rest.dropWhile isSpace) := by rw [solid_unifyEnds_spaces blanks, later]
      _ = solid (b :: rest) := by rw [solid_space space, solid_dropWhile_space]
  | comment rest ih =>
    rw [pieces_comment] at plain
    have later := ih fun p member => plain p (List.mem_cons_of_mem _ member)
    rw [solid_unifyEnds_comment ((plain _ List.mem_cons_self).2 rfl), later, solid_comment]
  | other b rest space code ih =>
    -- up to the next carriage return the text is kept, so the same token is cut off
    have parts := List.takeWhile_append_dropWhile (p := (· != carriageReturn)) (l := rest)
    have unreturned : ∀ text : Bytes, text ⊆ b :: rest.takeWhile (· != carriageReturn) →
        carriageReturn ∉ text := by
      intro text inside member
      rcases List.mem_cons.mp (inside member) with rfl | later
      · exact absurd space (by decide)
      · simpa using List.mem_takeWhile_imp later
    generalize rest.takeWhile (· != carriageReturn) = front at parts unreturned
    have ends := @head_dropWhile (· != carriageReturn) rest
    generalize rest.dropWhile (· != carriageReturn) = back at parts ends
    subst parts
    obtain ⟨inert, starts⟩ := @unifyEnds_inert back fun c ahead =>
      .inl (by simpa using ends c ahead)
    have after : Inert (unifyEnds back) := fun c ahead => by rw [starts c ahead]; rfl
    have found : (longestMatch (b :: front)).width ≠ 0 := by
      intro zero
      rw [← longestMatch_append front space code inert] at zero
      exact illegal_of_no_match zero fun p member => (plain p (List.mem_filter.mp member).1).1
    obtain ⟨piece, width, bound, -, also⟩ := pieces_append_inert space code found
    rw [← List.cons_append, also back inert] at plain
    have later := ih width
    rw [List.drop_append_of_le_length bound, unifyEnds_append back (unreturned _ ?_)] at later
    · rw [← List.cons_append, unifyEnds_append back (unreturned _ (List.Subset.refl _)),
        solid, solid,
        also back inert, also _ after, List.filter_cons, List.filter_cons]
      have same := later fun p member => plain p (List.mem_cons_of_mem piece member)
      rw [solid, solid] at same
      rw [same]
    · exact List.Subset.trans (List.drop_subset _ _) (List.subset_cons_self _ _)

end Indent

/-- Laying a program out anew keeps it up to places, provided that carriage returns in comments
    stand only where the comment ends. -/
theorem formatted_keeps_program {source : Bytes} {p : Program} (accepted : parse source = .ok p)
    (comments : ∀ piece ∈ pieces source, piece.kind = .comment →
      carriageReturn ∉ withoutReturns piece.text) :
    ∃ q, parse (formatted source) = .ok q ∧
      unplacedAll q.statements = unplacedAll p.statements := by
  have legal : Legal source := (tokenize_errors source).mp (parse_eq_ok_iff.mp accepted).1
  have plain : ∀ piece ∈ pieces source, Indent.Plain piece := by
    intro piece member
    refine ⟨fun illegal => ?_, comments piece member⟩
    exact legal piece (List.mem_filter.mpr ⟨member, by simp [Piece.isSolid, illegal]⟩) illegal
  have unified := Indent.solid_unifyEnds plain
  have kept : solid (formatted source) = solid source := by
    rw [formatted, Indent.solid_laidOut (by rwa [Legal, unified]), unified]
  have still : Legal (formatted source) := by rwa [Legal, kept]
  refine parse_of_bare_tokens ?_ still accepted
  rw [bare_tokens still, bare_tokens legal, kept]

theorem formatted_keeps_program_with_comments :
    ∃ p q, parse (utf8 "to f ; [\r\nfd 1\r\r\nend\rf ; ]\r") = .ok p ∧
      p.statements.length = 2 ∧
      parse (formatted (utf8 "to f ; [\r\nfd 1\r\r\nend\rf ; ]\r")) = .ok q ∧
      unplacedAll q.statements = unplacedAll p.statements := by
  obtain ⟨comments, p, accepted, two⟩ :
      (∀ piece ∈ pieces (utf8 "to f ; [\r\nfd 1\r\r\nend\rf ; ]\r"), piece.kind = .comment →
        carriageReturn ∉ withoutReturns piece.text) ∧
      ∃ p, parse (utf8 "to f ; [\r\nfd 1\r\r\nend\rf ; ]\r") = .ok p ∧
        p.statements.length = 2 := by decide +kernel
  obtain ⟨q, again, same⟩ := formatted_keeps_program accepted comments
  exact ⟨p, q, accepted, two, again, same⟩

/-- A carriage return within a comment: what stands behind it becomes part of the program. -/
theorem formatted_uncovers_comment :
    ∃ p q, parse (utf8 "; a\rfd 10") = .ok p ∧ parse (formatted (utf8 "; a\rfd 10")) = .ok q ∧
      formatted (utf8 "; a\rfd 10") = utf8 "; a\nfd 10\n" ∧
      p.statements = [] ∧ (unplacedAll q.statements).length = 1 := by
  obtain ⟨⟨p, accepted, nothing⟩, laid, q, uncovered, one⟩ :
      (∃ p, parse (utf8 "; a\rfd 10") = .ok p ∧ p.statements = []) ∧
      formatted (utf8 "; a\rfd 10") = utf8 "; a\nfd 10\n" ∧
      ∃ q, parse (utf8 "; a\nfd 10\n") = .ok q ∧ (unplacedAll q.statements).length = 1 := by
    decide +kernel
  exact ⟨p, q, accepted, laid ▸ uncovered, laid, nothing, one⟩

end TurtleLogo
