import Mathlib.Data.List.TakeWhile
import TurtleLogo.Proofs.Scan.Pieces

/-!
What a text holds besides white space and comments. A newline ends whatever stands before it, so
these pieces can be found line by line. More generally no token goes on into a byte that is blank
to some reader of texts or no ASCII: such a byte may be put behind a text, or taken away.
-/
namespace TurtleLogo

namespace Scan
open Text

def isInert (b : UInt8) : Bool := (9 ≤ b && b ≤ 13) || b == 32 || 0x80 ≤ b

def Inert (text : Bytes) : Prop := ∀ b ∈ text.head?, isInert b = true

theorem inert_byte (b : UInt8) (inert : isInert b = true) :
    isNamePart b = false ∧ startsNumber b = false ∧ b ≠ byte '.' ∧
      (isSpace b = false → startsSymbol b = false) := by
  have table : ∀ n < 256, isInert n.toUInt8 = true →
      isNamePart n.toUInt8 = false ∧ startsNumber n.toUInt8 = false ∧ n.toUInt8 ≠ byte '.' ∧
        (isSpace n.toUInt8 = false → startsSymbol n.toUInt8 = false) := by
    decide +kernel
  simpa using table b.toNat b.toNat_lt (by simpa using inert)

theorem Inert.boundary {text : Bytes} (inert : Inert text) : Boundary text := by
  intro b ahead
  have facts := inert_byte b (inert b ahead)
  exact ⟨facts.1, facts.2.2.1⟩

theorem Inert.no_digit {text : Bytes} (inert : Inert text) :
    ∀ b ∈ text.head?, isDigit b = false := fun b ahead =>
  isDigit_of_not_part (inert.boundary b ahead).1

theorem spellings_not_inert :
    (∀ entry ∈ TokenKind.keywordTable, ∀ word ∈ entry.2, (utf8 word).all (!isInert ·) = true) ∧
      ∀ entry ∈ symbols, (utf8 entry.2).all (!isInert ·) = true := by
  decide

theorem isPrefixOf_append {word text rest : Bytes} (solid : word.all (!isInert ·) = true)
    (inert : Inert rest) : word.isPrefixOf (text ++ rest) = word.isPrefixOf text := by
  induction word generalizing text with
  | nil => simp
  | cons b word ih =>
    simp only [List.all_cons, Bool.and_eq_true, Bool.not_eq_true'] at solid
    cases text with
    | cons c text => rw [List.cons_append, List.isPrefixOf, List.isPrefixOf, ih solid.2]
    | nil =>
      cases rest with
      | nil => rfl
      | cons c rest =>
        have differs : b ≠ c := by
          rintro rfl
          rw [inert b rfl] at solid
          exact Bool.noConfusion solid.1
        simp [List.isPrefixOf, differs]

theorem spellingWidth_append {word : String} {rest : Bytes} (text : Bytes)
    (solid : (utf8 word).all (!isInert ·) = true) (inert : Inert rest) :
    spellingWidth word (text ++ rest) = spellingWidth word text := by
  rw [spellingWidth, spellingWidth, isPrefixOf_append solid inert]

theorem run_append_of_stop {p : UInt8 → Bool} {rest : Bytes} (text : Bytes)
    (stop : ∀ b ∈ rest.head?, p b = false) : run p (text ++ rest) = run p text := by
  induction text with
  | nil => exact @run_append p [] rest rfl stop
  | cons b text ih =>
    simp only [run, List.cons_append, List.takeWhile_cons] at ih ⊢
    split
    · rw [List.length_cons, List.length_cons, ih]
    · rfl

theorem nameWidth_append_inert {rest : Bytes} (text : Bytes) (inert : Inert rest) :
    nameWidth (text ++ rest) = nameWidth text := by
  cases text with
  | cons b text =>
    rw [List.cons_append, nameWidth, nameWidth,
      run_append_of_stop text fun c ahead => (inert.boundary c ahead).1]
  | nil =>
    cases rest with
    | nil => rfl
    | cons c rest =>
      have part := (inert.boundary c rfl).1
      simp only [isNamePart, Bool.or_eq_false_iff] at part
      simp [nameWidth, part.1]

theorem sigilWidth_append_inert {rest : Bytes} (sigil b : UInt8) (text : Bytes)
    (inert : Inert rest) : sigilWidth sigil (b :: text ++ rest) = sigilWidth sigil (b :: text) := by
  rw [List.cons_append, sigilWidth, sigilWidth, nameWidth_append_inert text inert]

theorem fractionWidth_append {rest : Bytes} (text : Bytes) (inert : Inert rest) :
    fractionWidth (text ++ rest) = fractionWidth text := by
  cases text with
  | cons b text =>
    rw [List.cons_append, fractionWidth, fractionWidth, run_append_of_stop text inert.no_digit]
  | nil =>
    cases rest with
    | nil => rfl
    | cons c rest =>
      have point := (inert.boundary c rfl).2
      simp [fractionWidth, point]

theorem numberWidth_append_inert {rest : Bytes} (text : Bytes) (inert : Inert rest) :
    numberWidth (text ++ rest) = numberWidth text := by
  have whole := run_append_of_stop text inert.no_digit
  have dropped : (text ++ rest).drop (run isDigit text) = text.drop (run isDigit text) ++ rest :=
    List.drop_append_of_le_length (run_le_length isDigit text)
  rw [numberWidth, whole, dropped, fractionWidth_append _ inert, numberWidth]

theorem foldl_longer_congr {text other : Bytes} {best : Match} {ps : List Pattern}
    (same : ∀ q ∈ ps, q.width text = q.width other) :
    ps.foldl (Match.longer text) best = ps.foldl (Match.longer other) best := by
  induction ps generalizing best with
  | nil => rfl
  | cons p ps ih =>
    have first : Match.longer text best p = Match.longer other best p := by
      rw [Match.longer, Match.longer, same p List.mem_cons_self]
    rw [List.foldl_cons, List.foldl_cons, first]
    exact ih fun q member => same q (List.mem_cons_of_mem p member)

theorem longestMatch_append {b : UInt8} {rest : Bytes} (text : Bytes) (solid : isSpace b = false)
    (code : b ≠ byte ';') (inert : Inert rest) :
    longestMatch (b :: text ++ rest) = longestMatch (b :: text) := by
  refine foldl_longer_congr fun q member => ?_
  simp only [patterns_eq, blankPatterns, sigilPatterns, List.mem_append, List.mem_cons,
    List.mem_map, List.not_mem_nil, or_false] at member
  rcases member with
    ((((rfl | rfl) | ⟨entry, listed, rfl⟩) | ⟨entry, listed, rfl⟩) | rfl | rfl | rfl) | rfl
  · simp [run, solid]
  · simp [commentWidth, code]
  · have words : ∀ word ∈ entry.2,
        spellingWidth word (b :: text ++ rest) = spellingWidth word (b :: text) := by
      intro word spelled
      exact spellingWidth_append _ (spellings_not_inert.1 entry listed word spelled) inert
    refine Nat.le_antisymm (keywordWidth_le fun word spelled => ?_)
      (keywordWidth_le fun word spelled => ?_)
    · rw [words word spelled]
      exact le_keywordWidth spelled
    · rw [← words word spelled]
      exact le_keywordWidth spelled
  · exact spellingWidth_append _ (spellings_not_inert.2 entry listed) inert
  · exact numberWidth_append_inert _ inert
  · exact sigilWidth_append_inert doubleQuote b text inert
  · exact sigilWidth_append_inert (byte ':') b text inert
  · exact nameWidth_append_inert (b :: text) inert

theorem longestMatch_inert {b : UInt8} (text : Bytes) (solid : isSpace b = false)
    (inert : isInert b = true) : longestMatch (b :: text) = ⟨.illegal, 0⟩ := by
  obtain ⟨part, number, -, symbol⟩ := inert_byte b inert
  simp only [isNamePart, Bool.or_eq_false_iff] at part
  refine keep_longest fun q member => Nat.le_of_eq ?_
  rcases mem_patterns member with rfl | blank | keyword | rfl
  · exact numberWidth_zero number
  · exact symbol_width_zero (symbol solid) q blank
  · exact keyword_width_zero part.1 q keyword
  · simp [nameWidth, part.1]

def Piece.isSolid (p : Piece) : Bool := p.kind != .whitespace && p.kind != .comment

def solid (text : Bytes) : List Piece := (pieces text).filter Piece.isSolid

def Legal (text : Bytes) : Prop := ∀ p ∈ solid text, p.kind ≠ .illegal

theorem solid_dropWhile_space (text : Bytes) : solid (text.dropWhile isSpace) = solid text := by
  cases text with
  | nil => rfl
  | cons b rest =>
    rw [List.dropWhile_cons]
    split
    · rename_i blank
      rw [solid, solid, pieces_blank blank, List.filter_cons_of_neg (by simp [Piece.isSolid])]
    · rfl

theorem solid_space {b : UInt8} (blank : isSpace b = true) (rest : Bytes) :
    solid (b :: rest) = solid rest := by
  have dropped : (b :: rest).dropWhile isSpace = rest.dropWhile isSpace :=
    List.dropWhile_cons_of_pos blank
  rw [← solid_dropWhile_space (b :: rest), dropped, solid_dropWhile_space]

theorem solid_comment (rest : Bytes) :
    solid (byte ';' :: rest) = solid (rest.dropWhile (· != newline)) := by
  rw [solid, pieces_comment, List.filter_cons_of_neg (by simp [Piece.isSolid]), solid]

/-- At a byte that begins neither white space nor a comment the same piece is cut off, whether or
    not inert bytes follow. -/
theorem pieces_append_inert {b : UInt8} {text : Bytes} (space : isSpace b = false)
    (code : b ≠ byte ';') (found : (longestMatch (b :: text)).width ≠ 0) :
    ∃ piece width, width ≤ text.length ∧
      pieces (b :: text) = piece :: pieces (text.drop width) ∧
      ∀ rest, Inert rest →
        pieces (b :: text ++ rest) = piece :: pieces (text.drop width ++ rest) := by
  have bound := longestMatch_width_le (b :: text)
  obtain ⟨width, more⟩ := Nat.exists_eq_succ_of_ne_zero found
  rw [more, List.length_cons, Nat.succ_le_succ_iff] at bound
  refine ⟨⟨(longestMatch (b :: text)).kind, (b :: text).take (width + 1)⟩, width, bound, ?_, ?_⟩
  · rw [pieces_cons, if_neg found, more, List.drop_succ_cons]
  · intro rest inert
    rw [List.cons_append, pieces_cons, ← List.cons_append,
      longestMatch_append text space code inert, if_neg found, more,
      List.take_append_of_le_length (by simpa using bound), List.cons_append,
      List.drop_succ_cons, List.drop_append_of_le_length bound]

theorem illegal_of_no_match {b : UInt8} {text : Bytes}
    (unmatched : (longestMatch (b :: text)).width = 0) : ¬Legal (b :: text) := by
  have head : ∀ rune ps, ∃ p ∈ consIllegal rune ps, p.kind = .illegal := by
    intro rune ps
    cases ps with
    | nil => exact ⟨_, List.mem_singleton_self _, rfl⟩
    | cons p ps =>
      rw [consIllegal]
      split <;> exact ⟨_, List.mem_cons_self, rfl⟩
  intro legal
  obtain ⟨p, member, illegal⟩ := head ((b :: text).take (firstRune (b :: text)).width)
    (pieces ((b :: text).drop (firstRune (b :: text)).width))
  refine legal p (List.mem_filter.mpr ⟨?_, by simp [Piece.isSolid, illegal]⟩) illegal
  rwa [pieces_cons, if_pos unmatched]

theorem isSpace_of_legal {b : UInt8} {text : Bytes} (legal : Legal (b :: text))
    (inert : isInert b = true) : isSpace b = true := by
  by_contra other
  have unmatched := longestMatch_inert text (by simpa using other) inert
  exact illegal_of_no_match (by rw [unmatched]) legal

theorem consIllegal_append {rune : Bytes} {front tail : List Piece}
    (legal : ∀ p ∈ tail.head?, p.kind ≠ .illegal) :
    consIllegal rune (front ++ tail) = consIllegal rune front ++ tail := by
  cases front with
  | nil =>
    cases tail with
    | nil => rfl
    | cons p tail => simp [consIllegal, legal p rfl]
  | cons p front =>
    rw [List.cons_append, consIllegal, consIllegal]
    split <;> rfl

theorem dropWhile_append_newline (text rest : Bytes) :
    (text ++ newline :: rest).takeWhile (· != newline) = text.takeWhile (· != newline) ∧
      (text ++ newline :: rest).dropWhile (· != newline) =
        text.dropWhile (· != newline) ++ newline :: rest := by
  induction text with
  | nil => simp
  | cons b text ih =>
    simp only [List.cons_append, List.takeWhile_cons, List.dropWhile_cons, ih]
    split <;> simp

theorem dropWhile_of_not_mem {text : Bytes} (one_line : newline ∉ text) :
    text.dropWhile (· != newline) = [] := by
  refine List.dropWhile_eq_nil_iff.mpr fun b member => ?_
  have differs : b ≠ newline := fun same => one_line (same ▸ member)
  simpa using differs

theorem spaces_append {text : Bytes} (rest : Bytes) (more : text.dropWhile isSpace ≠ []) :
    (text ++ rest).takeWhile isSpace = text.takeWhile isSpace ∧
      (text ++ rest).dropWhile isSpace = text.dropWhile isSpace ++ rest := by
  have shorter : (text.takeWhile isSpace).length ≠ text.length := by
    intro whole
    have parts := List.takeWhile_append_dropWhile (p := isSpace) (l := text)
    have sizes := congrArg List.length parts
    rw [List.length_append, whole] at sizes
    exact more (List.length_eq_zero_iff.mp (by omega))
  rw [List.takeWhile_append, if_neg shorter, List.dropWhile_append, if_neg (by simpa using more)]
  exact ⟨rfl, rfl⟩

theorem inert_of_space {b : UInt8} (blank : isSpace b = true) : isInert b = true := by
  rcases space_byte blank with rfl | rfl | rfl | rfl | rfl <;> decide

theorem blank_inert {c : UInt8} (blank : isSpace c = true) (rest : Bytes) : Inert (c :: rest) := by
  intro b ahead
  obtain rfl := Option.some.inj ahead
  exact inert_of_space blank

/-- At an illegal byte the same rune is cut off, whether or not white space follows. -/
theorem pieces_illegal_append {b c : UInt8} {text : Bytes} (space : isSpace b = false)
    (code : b ≠ byte ';') (unmatched : (longestMatch (b :: text)).width = 0)
    (blank : isSpace c = true) :
    ∃ rune width, pieces (b :: text) = consIllegal rune (pieces (text.drop width)) ∧
      ∀ rest, pieces (b :: text ++ c :: rest) =
        consIllegal rune (pieces (text.drop width ++ c :: rest)) := by
  obtain ⟨width, more⟩ := Nat.exists_eq_succ_of_ne_zero (firstRune_width b text).1.ne'
  have bound := (firstRune_width b text).2
  rw [more, List.length_cons, Nat.succ_le_succ_iff] at bound
  have low : c < 0x80 := by rcases space_byte blank with rfl | rfl | rfl | rfl | rfl <;> decide
  refine ⟨(b :: text).take (width + 1), width, ?_, fun rest => ?_⟩
  · rw [pieces_cons, if_pos unmatched, more, List.drop_succ_cons]
  · have same := longestMatch_append text space code (blank_inert blank rest)
    have rune := firstRune_append low b text rest
    rw [List.cons_append, pieces_cons, ← List.cons_append, same, if_pos unmatched, rune, more,
      List.take_append_of_le_length (by simpa using bound), List.cons_append,
      List.drop_succ_cons, List.drop_append_of_le_length bound]

theorem mem_consIllegal {p : Piece} {rune : Bytes} {ps : List Piece} (legal : p.kind ≠ .illegal) :
    p ∈ consIllegal rune ps ↔ p ∈ ps := by
  have other : ∀ text, p ≠ ⟨.illegal, text⟩ := by
    rintro text rfl
    exact legal rfl
  cases ps with
  | nil => simp [consIllegal, other]
  | cons q ps =>
    rw [consIllegal]
    split
    · rename_i same
      obtain ⟨kind, text⟩ := q
      obtain rfl : kind = .illegal := by simpa using same
      simp [other]
    · simp [other]

def Uncommented (text : Bytes) : Prop := ∀ p ∈ pieces text, p.kind ≠ .comment

/-- White space ends the piece before it, or joins it if that is white space. But of all white space
    only a newline ends a comment. -/
theorem pieces_append_blank {c : UInt8} (blank : isSpace c = true) (text : Bytes)
    (ends : c = newline ∨ Uncommented text) :
    ∃ front tail, pieces text = front ++ tail ∧ (∀ p ∈ tail, p.kind = .whitespace) ∧
      ∀ rest, ∃ gap, pieces (text ++ c :: rest) =
        front ++ ⟨.whitespace, gap⟩ :: pieces (rest.dropWhile isSpace) := by
  induction text using scan_induction with
  | nil =>
    refine ⟨[], [], rfl, by simp, fun rest => ?_⟩
    exact ⟨_, pieces_blank blank rest⟩
  | blank b text space ih =>
    have inner : c = newline ∨ Uncommented (text.dropWhile isSpace) := by
      refine ends.imp_right fun uncommented p member => uncommented p ?_
      rw [pieces_blank space]
      exact List.mem_cons_of_mem _ member
    replace ih := ih (run isSpace text)
    rw [drop_run] at ih
    by_cases ended : text.dropWhile isSpace = []
    · refine ⟨[], pieces (b :: text), rfl, ?_, fun rest => ?_⟩
      · rw [pieces_blank space, ended]
        simp [pieces, piecesFrom]
      · have all : ∀ c ∈ text, isSpace c = true := List.dropWhile_eq_nil_iff.mp ended
        have dropped : (text ++ c :: rest).dropWhile isSpace = rest.dropWhile isSpace := by
          rw [List.dropWhile_append_of_pos all]
          exact List.dropWhile_cons_of_pos blank
        exact ⟨_, by rw [List.cons_append, pieces_blank space, dropped]; rfl⟩
    · obtain ⟨front, tail, cut, white, behind⟩ := ih inner
      refine ⟨⟨.whitespace, b :: text.takeWhile isSpace⟩ :: front, tail, ?_, white, fun rest => ?_⟩
      · rw [pieces_blank space, cut, List.cons_append]
      · obtain ⟨gap, cut⟩ := behind rest
        obtain ⟨taken, dropped⟩ := spaces_append (c :: rest) ended
        exact ⟨gap, by rw [List.cons_append, pieces_blank space, taken, dropped, cut]; rfl⟩
  | comment text ih =>
    have ended : c = newline := by
      refine ends.resolve_right fun uncommented => ?_
      rw [Uncommented, pieces_comment] at uncommented
      exact uncommented _ List.mem_cons_self rfl
    subst ended
    obtain ⟨front, tail, cut, white, behind⟩ := ih (.inl rfl)
    refine ⟨⟨.comment, byte ';' :: text.takeWhile (· != newline)⟩ :: front, tail, ?_, white,
      fun rest => ?_⟩
    · rw [pieces_comment, cut, List.cons_append]
    · obtain ⟨gap, cut⟩ := behind rest
      obtain ⟨taken, dropped⟩ := dropWhile_append_newline text rest
      exact ⟨gap, by rw [List.cons_append, pieces_comment, taken, dropped, cut]; rfl⟩
  | other b text space code ih =>
    by_cases found : (longestMatch (b :: text)).width = 0
    · obtain ⟨rune, width, cut, also⟩ := pieces_illegal_append space code found blank
      have inner : c = newline ∨ Uncommented (text.drop width) := by
        refine ends.imp_right fun uncommented p member comment => uncommented p ?_ comment
        rw [cut, mem_consIllegal (by simp [comment])]
        exact member
      obtain ⟨front, tail, left, white, behind⟩ := ih width inner
      have legal : ∀ p ∈ tail.head?, p.kind ≠ .illegal := by
        intro p ahead
        rw [white p (List.mem_of_mem_head? ahead)]
        decide
      refine ⟨consIllegal rune front, tail, ?_, white, fun rest => ?_⟩
      · rw [cut, left, consIllegal_append legal]
      · obtain ⟨gap, later⟩ := behind rest
        exact ⟨gap, by rw [also, later, consIllegal_append (by simp)]⟩
    · obtain ⟨piece, width, -, cut, also⟩ := pieces_append_inert space code found
      have inner : c = newline ∨ Uncommented (text.drop width) := by
        refine ends.imp_right fun uncommented p member => uncommented p ?_
        rw [cut]
        exact List.mem_cons_of_mem _ member
      obtain ⟨front, tail, left, white, behind⟩ := ih width inner
      refine ⟨piece :: front, tail, by rw [cut, left, List.cons_append], white, fun rest => ?_⟩
      obtain ⟨gap, later⟩ := behind rest
      exact ⟨gap, by rw [also _ (blank_inert blank rest), later, List.cons_append]⟩

theorem pieces_append_newline (text : Bytes) :
    ∃ front tail, pieces text = front ++ tail ∧ (∀ p ∈ tail, p.kind = .whitespace) ∧
      ∀ rest, ∃ gap, pieces (text ++ newline :: rest) =
        front ++ ⟨.whitespace, gap⟩ :: pieces (rest.dropWhile isSpace) :=
  pieces_append_blank rfl text (.inl rfl)

theorem solid_append_blank {c : UInt8} (blank : isSpace c = true) {text : Bytes}
    (ends : c = newline ∨ Uncommented text) (rest : Bytes) :
    solid (text ++ c :: rest) = solid text ++ solid rest := by
  obtain ⟨front, tail, cut, white, behind⟩ := pieces_append_blank blank text ends
  obtain ⟨gap, later⟩ := behind rest
  have unsolid : tail.filter Piece.isSolid = [] := by
    refine List.filter_eq_nil_iff.mpr fun p member => ?_
    simp [Piece.isSolid, white p member]
  have first : solid text = front.filter Piece.isSolid := by
    rw [solid, cut, List.filter_append, unsolid, List.append_nil]
  rw [first, ← solid_dropWhile_space rest, solid, later, List.filter_append,
    List.filter_cons_of_neg (by simp [Piece.isSolid]), solid]

theorem solid_append_newline (text rest : Bytes) :
    solid (text ++ newline :: rest) = solid text ++ solid rest :=
  solid_append_blank rfl (.inl rfl) rest

theorem solid_spaces (n : Nat) (text : Bytes) :
    solid (List.replicate n space ++ text) = solid text := by
  induction n with
  | zero => rfl
  | succ n ih => rw [List.replicate_succ, List.cons_append, solid_space rfl, ih]

theorem solid_joined (ls : List Bytes) : solid (joined [newline] ls) = ls.flatMap solid := by
  induction ls with
  | nil => rfl
  | cons line rest ih =>
    cases rest with
    | nil => simp [joined]
    | cons next more =>
      have parts : joined [newline] (line :: next :: more) =
          line ++ newline :: joined [newline] (next :: more) := by
        simp [joined, List.intercalate]
      rw [parts, solid_append_newline, ih]
      rfl

end Scan

namespace Lexed
open Scan

theorem errors_cons {kind : TokenKind} (legal : kind ≠ .illegal) (p : Position) (text : Text.Bytes)
    (ps : List Piece) :
    (ofPieces p (⟨kind, text⟩ :: ps)).errors = (ofPieces (p.after text) ps).errors := by
  cases kind <;> first | rfl | exact absurd rfl legal

theorem errors_ofPieces (p : Position) (ps : List Piece) :
    (ofPieces p ps).errors = [] ↔ ∀ q ∈ ps.filter Piece.isSolid, q.kind ≠ .illegal := by
  induction ps generalizing p with
  | nil => simp [ofPieces]
  | cons q ps ih =>
    obtain ⟨kind, text⟩ := q
    by_cases illegal : kind = .illegal
    · simp [illegal, ofPieces, Piece.isSolid]
    · rw [errors_cons illegal, ih, List.filter_cons]
      split
      · simp [illegal]
      · rfl

theorem tokens_ofPieces (p : Position) {ps : List Piece}
    (legal : ∀ q ∈ ps.filter Piece.isSolid, q.kind ≠ .illegal) :
    (ofPieces p ps).tokens.map (fun t => ⟨t.kind, t.literal⟩) = ps.filter Piece.isSolid := by
  induction ps generalizing p with
  | nil => rfl
  | cons q ps ih =>
    obtain ⟨kind, text⟩ := q
    have later := ih (p.after text) fun other member => by
      refine legal other ?_
      rw [List.filter_cons]
      split
      · exact List.mem_cons_of_mem _ member
      · exact member
    cases kind with
    | illegal => exact absurd rfl (legal ⟨.illegal, text⟩ (by simp [Piece.isSolid]))
    | whitespace | comment => exact later
    | _ => simp [ofPieces, Piece.isSolid, List.filter_cons, later]

end Lexed

theorem tokenize_errors (text : Text.Bytes) : (tokenize text).errors = [] ↔ Scan.Legal text :=
  Lexed.errors_ofPieces Position.start (Scan.pieces text)

theorem tokenize_tokens {text : Text.Bytes} (legal : Scan.Legal text) :
    (tokenize text).tokens.map (fun t => ⟨t.kind, t.literal⟩) = Scan.solid text :=
  Lexed.tokens_ofPieces Position.start legal

end TurtleLogo
