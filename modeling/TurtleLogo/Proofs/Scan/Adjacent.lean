import TurtleLogo.Proofs.Scan.Lines

/-!
Words that touch. A longest match does not go on into the text behind it, so what stands right in
front of a letter or a digit is a mark, white space, or a number in front of a letter; everything
else would have taken the letter in. A comment goes on to the end of its line and has nothing
behind it in the line.
-/
namespace TurtleLogo

namespace Scan
open Text

theorem not_accepted_longer {word rest : Bytes} {c : UInt8} {kind : TokenKind} {rule : Rule}
    (longest : longestMatch (word ++ c :: rest) = ⟨kind, word.length⟩) (listed : rule ∈ rules) :
    ¬rule.accepts (word ++ [c]) = true := by
  intro accepted
  have begins : word ++ [c] <+: word ++ c :: rest := ⟨rest, by simp⟩
  have bound := word_le_longestMatch listed accepted begins
  rw [longest, List.length_append, List.length_singleton] at bound
  exact Nat.not_succ_le_self _ bound

theorem isName_append {name : Bytes} {c : UInt8} (named : isName name = true)
    (part : isNamePart c = true) : isName (name ++ [c]) = true := by
  cases name with
  | nil => contradiction
  | cons b rest =>
    simp only [isName, Bool.and_eq_true] at named
    simp [isName, named.1, List.all_append, named.2, part]

theorem isSigiled_append {sigil : UInt8} {word : Bytes} {c : UInt8}
    (accepted : isSigiled sigil word = true) (part : isNamePart c = true) :
    isSigiled sigil (word ++ [c]) = true := by
  cases word with
  | nil => contradiction
  | cons b name =>
    simp only [isSigiled, Bool.and_eq_true] at accepted
    simp [isSigiled, accepted.1, isName_append accepted.2 part]

theorem isDecimal_iff {word : Bytes} : isDecimal word = true ↔
    ∃ stem digits, word = stem ++ digits ∧ digits ≠ [] ∧ digits.all isDigit = true ∧
      (stem = [] ∨ ∃ whole, stem = whole ++ [byte '.'] ∧ whole.all isDigit = true) := by
  constructor
  · intro number
    unfold isDecimal at number
    split at number
    · simp only [Bool.and_eq_true, Bool.not_eq_true', List.isEmpty_eq_false_iff] at number
      exact ⟨[], word, rfl, number.1, number.2, .inl rfl⟩
    · rename_i whole fraction cut
      simp only [Bool.and_eq_true, Bool.not_eq_true', List.isEmpty_eq_false_iff] at number
      refine ⟨whole ++ [byte '.'], fraction, ?_, number.1.2, number.2,
        .inr ⟨whole, rfl, number.1.1⟩⟩
      rw [cutAt_eq_some cut, List.append_assoc, List.singleton_append]
  · rintro ⟨stem, digits, rfl, nonempty, all, rfl | ⟨whole, rfl, whole_digits⟩⟩
    · rw [List.nil_append, isDecimal, cutAt_eq_none (digits_have_no_point all)]
      simpa [nonempty] using all
    · rw [List.append_assoc, List.singleton_append, isDecimal,
        cutAt_append (digits_have_no_point whole_digits)]
      simpa [nonempty] using ⟨List.all_eq_true.mp whole_digits, List.all_eq_true.mp all⟩

theorem isDecimal_append {word : Bytes} {c : UInt8} (number : isDecimal word = true)
    (digit : isDigit c = true) : isDecimal (word ++ [c]) = true := by
  obtain ⟨stem, digits, rfl, -, all, front⟩ := isDecimal_iff.mp number
  refine isDecimal_iff.mpr ⟨stem, digits ++ [c], List.append_assoc .., by simp, ?_, front⟩
  rw [List.all_append, all, List.all_cons, digit]
  rfl

def EndsWords (b : UInt8) : Prop := isNamePart b = false ∧ b < 0x80

theorem endsWords_of_space (b : UInt8) (blank : isSpace b = true) : EndsWords b := by
  refine ⟨?_, low_byte b (.inl blank)⟩
  simp only [isSpace, Bool.or_eq_true, beq_iff_eq] at blank
  rcases blank with (((rfl | rfl) | rfl) | rfl) | rfl <;> decide

theorem keywords_are_names :
    ∀ entry ∈ TokenKind.keywordTable, ∀ word ∈ entry.2, isName (utf8 word) = true := by
  decide

theorem symbols_end_words : ∀ entry ∈ symbols, ∀ b ∈ (utf8 entry.2).getLast?, EndsWords b := by
  unfold EndsWords
  decide +kernel

/-- In front of a letter or a digit a word ends in neither, unless it is a number and no digit
    follows. -/
theorem ends_before_part {word rest : Bytes} {c : UInt8} {kind : TokenKind} (nonempty : word ≠ [])
    (longest : longestMatch (word ++ c :: rest) = ⟨kind, word.length⟩)
    (part : isNamePart c = true) :
    (∀ b ∈ word.getLast?, EndsWords b) ∨
      kind = .number ∧ isDecimal word = true ∧ isDigit c = false := by
  obtain ⟨rule, found, rfl⟩ := Option.map_eq_some_iff.mp (rule_of_word nonempty longest)
  have accepted := List.find?_some found
  have listed := List.mem_of_find?_eq_some found
  have longer := not_accepted_longer longest listed
  have unnamed : ¬isName word = true := by
    intro named
    have identifier : (⟨.identifier, isName⟩ : Rule) ∈ rules := by simp [rules]
    exact not_accepted_longer longest identifier (isName_append named part)
  simp only [rules, List.mem_append, List.mem_cons, List.mem_map, List.not_mem_nil,
    or_false] at listed
  rcases listed with (((rfl | rfl) | ⟨entry, listed, rfl⟩) | ⟨entry, listed, rfl⟩) |
    rfl | rfl | rfl | rfl
  · simp only [isRun, Bool.and_eq_true, List.all_eq_true] at accepted
    exact .inl fun b last => endsWords_of_space b (accepted.2 b (List.mem_of_getLast? last))
  · obtain ⟨line, -, ends⟩ := comment_of_word nonempty longest
    have stop := List.head?_dropWhile_not (· != newline) (line ++ c :: rest)
    rw [ends] at stop
    obtain rfl : c = newline := by simpa using stop
    contradiction
  · obtain ⟨spelling, spelled, same⟩ := List.any_eq_true.mp accepted
    obtain rfl := eq_of_beq same
    exact absurd (keywords_are_names entry listed spelling spelled) unnamed
  · obtain rfl := eq_of_beq accepted
    exact .inl (symbols_end_words entry listed)
  · refine .inr ⟨rfl, accepted, Bool.eq_false_iff.mpr fun digit => ?_⟩
    exact longer (isDecimal_append accepted digit)
  · exact absurd (isSigiled_append accepted part) longer
  · exact absurd (isSigiled_append accepted part) longer
  · exact absurd accepted unnamed

theorem stops_behind_name {name rest : Bytes} {kind : TokenKind} (named : isName name = true)
    (longest : longestMatch (name ++ rest) = ⟨kind, name.length⟩) :
    ∀ b ∈ rest.head?, isNamePart b = false := by
  intro b next
  obtain ⟨more, rfl⟩ : ∃ more, rest = b :: more := List.head?_eq_some_iff.mp next
  refine Bool.eq_false_iff.mpr fun part => ?_
  have identifier : (⟨.identifier, isName⟩ : Rule) ∈ rules := by simp [rules]
  exact not_accepted_longer longest identifier (isName_append named part)

theorem Cut.split {text : Bytes} {front back : List Piece} (cut : Cut text (front ++ back)) :
    ∃ rest, text = front.flatMap Piece.text ++ rest ∧ Cut rest back := by
  induction front generalizing text with
  | nil => exact ⟨text, rfl, cut⟩
  | cons piece front ih =>
    obtain ⟨more, rfl, -, later⟩ := cut.uncons
    obtain ⟨rest, rfl, behind⟩ := ih later
    exact ⟨rest, by rw [List.flatMap_cons, List.append_assoc], behind⟩

theorem Cut.first_word {text : Bytes} {piece : Piece} {ps : List Piece}
    (cut : Cut text (piece :: ps)) (legal : piece.kind ≠ .illegal) :
    piece.text ≠ [] ∧ ∃ rest, text = piece.text ++ rest ∧
      longestMatch (piece.text ++ rest) = ⟨piece.kind, piece.text.length⟩ ∧ Cut rest ps := by
  cases cut with
  | word nonempty longest later => exact ⟨nonempty, _, rfl, longest, later⟩
  | run nonempty barren ends later => exact absurd rfl legal

theorem Cut.first_low {text : Bytes} {ps : List Piece} (cut : Cut text ps)
    (legal : ∀ q ∈ ps, q.kind ≠ .illegal) : ∀ b ∈ text.head?, b < 0x80 := by
  cases ps with
  | nil =>
    cases cut
    exact fun b first => by contradiction
  | cons piece ps =>
    obtain ⟨nonempty, rest, rfl, longest, -⟩ := cut.first_word (legal piece List.mem_cons_self)
    obtain ⟨b, more, bytes⟩ := List.exists_cons_of_ne_nil nonempty
    intro c first
    rw [bytes] at first longest nonempty
    obtain rfl := Option.some.inj first
    by_cases code : piece.kind = .comment
    · rw [code] at longest
      obtain ⟨line, starts, -⟩ := comment_of_word nonempty longest
      obtain ⟨rfl, -⟩ := List.cons.inj starts
      decide
    · obtain ⟨rule, found, same⟩ := Option.map_eq_some_iff.mp (rule_of_word nonempty longest)
      have accepted := List.find?_some found
      rw [← same] at code
      exact rule_word_low (List.mem_of_find?_eq_some found) code accepted _ List.mem_cons_self

theorem Cut.ends_before_part {text rest : Bytes} {c : UInt8} {front back : List Piece}
    (cut : Cut text (front ++ back)) (legal : ∀ q ∈ front, q.kind ≠ .illegal)
    (parts : text = front.flatMap Piece.text ++ c :: rest) (part : isNamePart c = true) :
    (∀ b ∈ (front.flatMap Piece.text).getLast?, EndsWords b) ∨
      ∃ before q, front = before ++ [q] ∧ q.kind = .number ∧ isDecimal q.text = true ∧
        isDigit c = false := by
  obtain rfl | ⟨before, q, rfl⟩ := List.eq_nil_or_concat' front
  · exact .inl fun b last => by contradiction
  rw [List.append_assoc] at cut
  obtain ⟨mid, whole, later⟩ := cut.split
  obtain ⟨nonempty, behind, rfl, longest, -⟩ := later.first_word (legal q (by simp))
  have flat : (before ++ [q]).flatMap Piece.text = before.flatMap Piece.text ++ q.text := by simp
  rw [flat] at parts ⊢
  obtain rfl : behind = c :: rest := by
    rw [whole, List.append_assoc] at parts
    exact List.append_cancel_left (List.append_cancel_left parts)
  rcases Scan.ends_before_part nonempty longest part with ends | ⟨kind, number, letter⟩
  · refine .inl fun b last => ends b ?_
    rwa [List.getLast?_append_of_ne_nil _ nonempty] at last
  · exact .inr ⟨before, q, rfl, kind, number, letter⟩

/-- Digits that touch a letter or a digit from the front end a number, and what is in front of them
    ends in nothing that they could go on. -/
theorem Cut.digits_before_part {text rest : Bytes} {c : UInt8} {front back : List Piece}
    (cut : Cut text (front ++ back)) (legal : ∀ q ∈ front, q.kind ≠ .illegal)
    (parts : text = front.flatMap Piece.text ++ c :: rest) (part : isNamePart c = true) :
    ∃ stem digits, front.flatMap Piece.text = stem ++ digits ∧ digits.all isDigit = true ∧
      (∀ b ∈ stem.getLast?, EndsWords b) ∧
      (digits ≠ [] → ∃ before q, front = before ++ [q] ∧ q.kind = .number) := by
  rcases cut.ends_before_part legal parts part with ends | ⟨before, q, rfl, kind, number, -⟩
  · exact ⟨_, [], (List.append_nil _).symm, rfl, ends, fun filled => absurd rfl filled⟩
  obtain ⟨stem, digits, word, filled, all, shape⟩ := isDecimal_iff.mp number
  have flat : (before ++ [q]).flatMap Piece.text = before.flatMap Piece.text ++ stem ++ digits := by
    simp [word]
  refine ⟨before.flatMap Piece.text ++ stem, digits, flat, all, ?_, fun _ => ⟨before, q, rfl, kind⟩⟩
  rcases shape with rfl | ⟨whole, rfl, -⟩
  · -- the number begins with its digits, so no number ends in front of it
    obtain ⟨d, more, rfl⟩ := List.exists_cons_of_ne_nil filled
    rw [List.all_cons, Bool.and_eq_true] at all
    have here : text = before.flatMap Piece.text ++ d :: (more ++ c :: rest) := by
      rw [parts, flat]
      simp
    rw [List.append_assoc] at cut
    rw [List.append_nil]
    refine (cut.ends_before_part (fun p member => legal p (by simp [member])) here
      (by simp [isNamePart, all.1])).resolve_right ?_
    rintro ⟨-, -, -, -, -, letter⟩
    rw [all.1] at letter
    contradiction
  · intro b last
    rw [← List.append_assoc, List.getLast?_concat] at last
    obtain rfl := Option.some.inj last
    exact ⟨by decide, by decide⟩

end Scan

namespace Lexed
open Scan

theorem piece_of_token {p : Position} {ps : List Piece} {t : Token}
    (member : t ∈ (ofPieces p ps).tokens) :
    ∃ front back, ps = front ++ t.piece :: back ∧ t.pos = (ofPieces p front).finish := by
  induction ps generalizing p with
  | nil => contradiction
  | cons piece ps ih =>
    rw [ofPieces_cons] at member
    rcases List.mem_append.mp member with first | later
    · obtain ⟨kind, text⟩ := piece
      have alone : t = ⟨kind, text, p⟩ := by
        cases kind <;> first | exact List.mem_singleton.mp first | contradiction
      rw [alone]
      exact ⟨[], ps, rfl, rfl⟩
    · obtain ⟨front, back, rfl, pos⟩ := ih later
      refine ⟨piece :: front, back, rfl, ?_⟩
      rw [pos, ofPieces_cons]
      rfl

theorem token_of_piece {front back : List Piece} {q : Piece} (p : Position)
    (solid : ¬(q.kind = .whitespace ∨ q.kind = .comment)) (legal : q.kind ≠ .illegal) :
    ⟨q.kind, q.text, (ofPieces p front).finish⟩ ∈ (ofPieces p (front ++ q :: back)).tokens := by
  rw [ofPieces_append]
  refine List.mem_append_right _ ?_
  rw [ofPieces_token solid legal]
  exact List.mem_cons_self

end Lexed

open Text Scan

theorem pieces_legal {source : Bytes} (legal : (tokenize source).errors = []) :
    ∀ q ∈ pieces source, q.kind ≠ .illegal := by
  intro q member illegal
  have solid := (Lexed.errors_ofPieces _ _).mp legal q
  exact solid (List.mem_filter.mpr ⟨member, by rw [Piece.isSolid, illegal]; rfl⟩) illegal

theorem word_of_kind {source : Bytes} {t : Token} (munched : t.Munched source) :
    (t.kind = .identifier → isName t.literal = true) ∧
      (t.kind = .number → isDecimal t.literal = true) := by
  obtain ⟨nonempty, rest, -, longest⟩ := munched
  obtain ⟨rule, found, same⟩ := Option.map_eq_some_iff.mp (rule_of_word nonempty longest)
  have accepted := List.find?_some found
  have listed := List.mem_of_find?_eq_some found
  have order : rules = rules.take 31 ++ [⟨.number, isDecimal⟩, ⟨.varName, isSigiled doubleQuote⟩,
      ⟨.paramName, isSigiled (byte ':')⟩, ⟨.identifier, isName⟩] := rfl
  have others : ∀ rule ∈ rules.take 31, rule.kind ≠ .identifier ∧ rule.kind ≠ .number := by decide
  rw [order, List.mem_append] at listed
  rw [← same]
  rcases listed with early | last
  · exact ⟨fun kind => absurd kind (others rule early).1,
      fun kind => absurd kind (others rule early).2⟩
  · simp only [List.mem_cons, List.not_mem_nil, or_false] at last
    rcases last with rfl | rfl | rfl | rfl
    · exact ⟨nofun, fun _ => accepted⟩
    · exact ⟨nofun, nofun⟩
    · exact ⟨nofun, nofun⟩
    · exact ⟨fun _ => accepted, nofun⟩

def digitsBefore (source : Bytes) (t : Token) : Bytes :=
  (source.take t.pos.offset).rtakeWhile isDigit

theorem rtakeWhile_digits {stem digits : Bytes} (ends : ∀ b ∈ stem.getLast?, EndsWords b)
    (all : digits.all isDigit = true) : (stem ++ digits).rtakeWhile isDigit = digits := by
  have digit : ∀ b ∈ digits.reverse, isDigit b = true := fun b member =>
    List.all_eq_true.mp all b (List.mem_reverse.mp member)
  have stop : stem.reverse.takeWhile isDigit = [] := by
    cases last : stem.reverse with
    | nil => rfl
    | cons b more =>
      have ending : stem.getLast? = some b := by rw [← List.head?_reverse, last, List.head?_cons]
      exact List.takeWhile_cons_of_neg (by simp [isDigit_of_not_part (ends b ending).1])
  rw [List.rtakeWhile, List.reverse_append, List.takeWhile_append_of_pos digit, stop,
    List.append_nil, List.reverse_reverse]

theorem digitsBefore_of_number {source : Bytes} {t u : Token}
    (member : u ∈ (tokenize source).tokens) (number : u.kind = .number)
    (touches : u.item.finish = t.pos.offset) : digitsBefore source t ≠ [] := by
  have munched := (tokenize_faithful source).tokens u member
  obtain ⟨stem, digits, literal, filled, all, -⟩ :=
    isDecimal_iff.mp ((word_of_kind munched).2 number)
  obtain ⟨-, rest, here, -⟩ := munched
  have front : source.take t.pos.offset = source.take u.pos.offset ++ stem ++ digits := by
    have size : t.pos.offset = u.pos.offset + u.literal.length := touches.symm
    rw [size, List.take_add, here, List.take_left, literal, List.append_assoc]
  intro undigited
  have last := List.rtakeWhile_eq_nil_iff.mp undigited
  rw [front] at last
  have nonempty : source.take u.pos.offset ++ stem ++ digits ≠ [] := by simp [filled]
  refine last nonempty ?_
  rw [List.getLast_append_of_right_ne_nil _ _ filled]
  exact List.all_eq_true.mp all _ (List.getLast_mem filled)

/-- A name in a text without errors. In front of it and the digits that touch it, and behind it, is
    nothing that names and numbers are made of, and digits that touch it end a number. -/
structure NameStands (source : Bytes) (t : Token) (stem rest : Bytes) : Prop where
  parts : source = stem ++ (digitsBefore source t ++ (t.literal ++ rest))
  pos : t.pos = Position.start.after (stem ++ digitsBefore source t)
  name : isName t.literal = true
  digits : (digitsBefore source t).all isDigit = true
  before : ∀ b ∈ stem.getLast?, EndsWords b
  behind : ∀ b ∈ rest.head?, EndsWords b
  number : digitsBefore source t ≠ [] →
    ∃ u ∈ (tokenize source).tokens, u.kind = .number ∧ u.item.finish = t.pos.offset

theorem identifier_stands {source : Bytes} (legal : (tokenize source).errors = []) {t : Token}
    (member : t ∈ (tokenize source).tokens) (kind : t.kind = .identifier) :
    ∃ stem rest, NameStands source t stem rest := by
  have named := (word_of_kind ((tokenize_faithful source).tokens t member)).1 kind
  obtain ⟨front, back, cut_here, pos⟩ := Lexed.piece_of_token member
  have legal := pieces_legal legal
  have cut := cut_pieces source
  rw [cut_here] at cut legal
  obtain ⟨mid, whole, later⟩ := cut.split
  obtain ⟨-, rest, rfl, longest, onward⟩ := later.first_word (legal _ (by simp))
  have size : t.pos.offset = (front.flatMap Piece.text).length := by
    rw [pos, (Lexed.ofPieces_finish _ _).1]
    exact Nat.zero_add _
  have start : t.pos = Position.start.after (front.flatMap Piece.text) := by
    obtain ⟨before, others, parts, -, reached⟩ :=
      places_reached source t.pos (Lexed.mem_places.mpr (.inr (.inl ⟨t, member, rfl⟩)))
    have same : before.length = (front.flatMap Piece.text).length := by
      rw [← size, reached, Position.after_offset]
      exact (Nat.zero_add _).symm
    rw [reached, (List.append_inj (parts.symm.trans whole) same).1]
  have behind : ∀ b ∈ rest.head?, EndsWords b := fun b next =>
    ⟨stops_behind_name named longest b next,
      onward.first_low (fun q inside => legal q (by simp [inside])) b next⟩
  have taken : source.take t.pos.offset = front.flatMap Piece.text := by
    rw [whole, size, List.take_left]
  obtain ⟨c, tail, literal⟩ := List.exists_cons_of_ne_nil (ne_nil_of_isName named)
  have letter : isNamePart c = true := by
    rw [literal] at named
    simp only [isName, Bool.and_eq_true] at named
    rw [isNamePart, named.1]
    rfl
  have parts : source = front.flatMap Piece.text ++ c :: (tail ++ rest) := by
    rw [whole, ← List.cons_append, ← literal]
    rfl
  obtain ⟨stem, digits, flat, all, ends, number⟩ :=
    cut.digits_before_part (fun q inside => legal q (by simp [inside])) parts letter
  have touching : digitsBefore source t = digits := by
    rw [digitsBefore, taken, flat, rtakeWhile_digits ends all]
  refine ⟨stem, rest, ?_, ?_, named, ?_, ends, behind, ?_⟩
  · rw [touching, ← List.append_assoc, ← flat]
    exact whole
  · rw [touching, ← flat, start]
  · rw [touching, all]
  · intro preceded
    rw [touching] at preceded
    obtain ⟨before, q, rfl, kind⟩ := number preceded
    rw [List.append_assoc] at cut_here
    refine ⟨⟨q.kind, q.text, (Lexed.ofPieces Position.start before).finish⟩, ?_, kind, ?_⟩
    · rw [tokenize, cut_here]
      exact Lexed.token_of_piece _ (by rw [kind]; decide) (by rw [kind]; decide)
    · rw [Token.item, Item.finish, (Lexed.ofPieces_finish _ _).1, size, List.flatMap_append,
        List.length_append]
      simp [Position.start]

end TurtleLogo
