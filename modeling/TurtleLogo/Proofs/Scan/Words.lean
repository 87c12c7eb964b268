import Mathlib.Data.List.Find
import TurtleLogo.Proofs.Text.Bytes
import TurtleLogo.Scan

/-!
Where single tokens end. A pattern that is longer than all before it in the table and not
shorter than any behind it is the longest match. From this follow the tokens that begin with a
name, a sigil, a digit, a mark or a space, provided that what stands behind them does not go on.
-/
namespace TurtleLogo.Scan
open Text

theorem keep_longest {text : Bytes} {best : Match} {ps : List Pattern}
    (longest : ∀ p ∈ ps, p.width text ≤ best.width) :
    ps.foldl (Match.longer text) best = best := by
  induction ps with
  | nil => rfl
  | cons p ps ih =>
    have first : Match.longer text best p = best := by
      have := longest p (by simp)
      simp [Match.longer, Nat.not_lt.mpr this]
    rw [List.foldl_cons, first]
    exact ih fun q member => longest q (List.mem_cons_of_mem p member)

theorem longest_below {text : Bytes} {best : Match} {ps : List Pattern} {width : Nat}
    (start : best.width < width) (shorter : ∀ p ∈ ps, p.width text < width) :
    (ps.foldl (Match.longer text) best).width < width := by
  induction ps generalizing best with
  | nil => exact start
  | cons p ps ih =>
    have first : (Match.longer text best p).width < width := by
      unfold Match.longer
      split
      · exact shorter p (by simp)
      · exact start
    exact ih first fun q member => shorter q (List.mem_cons_of_mem p member)

theorem longestMatch_of_find {text : Bytes} {p : Pattern} {width : Nat} (nonempty : 0 < width)
    (longest : ∀ q ∈ patterns, q.width text ≤ width)
    (found : patterns.find? (fun q => q.width text == width) = some p) :
    longestMatch text = ⟨p.kind, width⟩ := by
  obtain ⟨same, front, behind, order, earlier⟩ := List.find?_eq_some_iff_append.mp found
  have reached : p.width text = width := by simpa using same
  have shorter : ∀ q ∈ front, q.width text < width := by
    intro q member
    have bound := longest q (by simp [order, member])
    have differs : q.width text ≠ width := by simpa using earlier q member
    omega
  have below : (front.foldl (Match.longer text) ⟨.illegal, 0⟩).width < width :=
    longest_below nonempty shorter
  have taken : Match.longer text (front.foldl (Match.longer text) ⟨.illegal, 0⟩) p =
      ⟨p.kind, width⟩ := by
    simp [Match.longer, reached, below]
  rw [longestMatch, order, List.foldl_append, List.foldl_cons, taken]
  exact keep_longest fun q member => longest q (by simp [order, member])

theorem longestMatch_of_only {text : Bytes} {p : Pattern} (listed : p ∈ patterns)
    (nonempty : 0 < p.width text) (others : ∀ q ∈ patterns, q = p ∨ q.width text = 0) :
    longestMatch text = ⟨p.kind, p.width text⟩ := by
  refine longestMatch_of_find nonempty ?_ ?_
  · intro q member
    rcases others q member with rfl | unreached
    · exact Nat.le_refl _
    · omega
  · cases found : patterns.find? (fun q => q.width text == p.width text) with
    | none => simpa using List.find?_eq_none.mp found p listed
    | some q =>
      have reached : q.width text = p.width text := by simpa using List.find?_some found
      rcases others q (List.mem_of_find?_eq_some found) with rfl | unreached
      · rfl
      · omega

def isName : Bytes → Bool
  | [] => false
  | b :: rest => isNameStart b && rest.all isNamePart

def isDecimal (text : Bytes) : Bool :=
  match cutAt? (byte '.') text with
  | none => !text.isEmpty && text.all isDigit
  | some (whole, fraction) => whole.all isDigit && !fraction.isEmpty && fraction.all isDigit

def Boundary (text : Bytes) : Prop :=
  ∀ b ∈ text.head?, isNamePart b = false ∧ b ≠ byte '.'

theorem run_append {p : UInt8 → Bool} {text rest : Bytes} (all : text.all p = true)
    (stop : ∀ b ∈ rest.head?, p b = false) : run p (text ++ rest) = text.length := by
  have ends : rest.takeWhile p = [] := by
    cases rest with
    | nil => rfl
    | cons b rest => simp [stop b (by simp)]
  rw [run, List.takeWhile_append_of_pos (List.all_eq_true.mp all), ends, List.append_nil]

theorem isDigit_of_not_part {b : UInt8} (h : isNamePart b = false) : isDigit b = false := by
  simp only [isNamePart, Bool.or_eq_false_iff] at h
  exact h.2

theorem nameWidth_append {name rest : Bytes} (named : isName name = true)
    (stop : Boundary rest) : nameWidth (name ++ rest) = name.length := by
  cases name with
  | nil => simp [isName] at named
  | cons b tail =>
    simp only [isName, Bool.and_eq_true] at named
    have parts := run_append named.2 fun b ahead => (stop b ahead).1
    simp only [List.cons_append, nameWidth, named.1, if_true, parts, List.length_cons]
    omega

theorem numberWidth_append {text rest : Bytes} (number : isDecimal text = true)
    (stop : Boundary rest) : numberWidth (text ++ rest) = text.length := by
  have noDigit : ∀ b ∈ rest.head?, isDigit b = false := fun b ahead =>
    isDigit_of_not_part (stop b ahead).1
  unfold isDecimal at number
  split at number
  · simp only [Bool.and_eq_true] at number
    have whole := run_append number.2 noDigit
    have point : fractionWidth rest = 0 := by
      cases rest with
      | nil => rfl
      | cons b rest =>
        have := (stop b (by simp)).2
        simp [fractionWidth, this]
    simp [numberWidth, whole, point]
  · rename_i whole fraction cut
    simp only [Bool.and_eq_true, Bool.not_eq_true', List.isEmpty_eq_false_iff] at number
    have point : isDigit (byte '.') = false := by decide
    have front : run isDigit (whole ++ byte '.' :: (fraction ++ rest)) = whole.length :=
      run_append number.1.1 (by simp [point])
    have back := run_append number.2 noDigit
    have some_digit : 0 < fraction.length := List.length_pos_iff.mpr number.1.2
    rw [cutAt_eq_some cut, List.append_assoc, List.cons_append, numberWidth, front,
      List.drop_left, fractionWidth, back]
    simp [some_digit]
    omega

def symbols : List (TokenKind × String) :=
  [(.leftBracket, "["), (.rightBracket, "]"), (.leftParen, "("), (.rightParen, ")"),
   (.plus, "+"), (.minus, "-"), (.asterisk, "*"), (.slash, "/"),
   (.notEqual, "!="), (.equal, "="), (.greater, ">"), (.less, "<")]

def keywordPattern (entry : TokenKind × List String) : Pattern := ⟨entry.1, keywordWidth entry.2⟩

def symbolPattern (entry : TokenKind × String) : Pattern := ⟨entry.1, spellingWidth entry.2⟩

def blankPatterns : List Pattern := [⟨.whitespace, run isSpace⟩, ⟨.comment, commentWidth⟩]

def sigilPatterns : List Pattern :=
  [⟨.varName, sigilWidth doubleQuote⟩, ⟨.paramName, sigilWidth (byte ':')⟩]

theorem patterns_eq : patterns =
    blankPatterns ++ TokenKind.keywordTable.map keywordPattern ++ symbols.map symbolPattern ++
      ⟨.number, numberWidth⟩ :: sigilPatterns ++ [⟨.identifier, nameWidth⟩] := rfl

theorem mem_patterns {q : Pattern} (member : q ∈ patterns) : q = ⟨.number, numberWidth⟩ ∨
    q ∈ blankPatterns ++ symbols.map symbolPattern ++ sigilPatterns ∨
    q ∈ TokenKind.keywordTable.map keywordPattern ∨ q = ⟨.identifier, nameWidth⟩ := by
  simp only [patterns_eq, List.mem_append, List.mem_cons, List.not_mem_nil, or_false] at member ⊢
  grind

theorem keywordWidth_le {spellings : List String} {text : Bytes} {width : Nat}
    (all : ∀ word ∈ spellings, spellingWidth word text ≤ width) :
    keywordWidth spellings text ≤ width := by
  have step : ∀ (words : List String) (start : Nat), start ≤ width →
      (∀ word ∈ words, spellingWidth word text ≤ width) →
      words.foldl (fun n word => max n (spellingWidth word text)) start ≤ width := by
    intro words
    induction words with
    | nil => intro start low _; exact low
    | cons word words ih =>
      intro start low each
      exact ih _ (Nat.max_le.mpr ⟨low, each word (by simp)⟩) fun other member =>
        each other (List.mem_cons_of_mem word member)
  exact step spellings 0 (Nat.zero_le _) all

theorem le_keywordWidth {spellings : List String} {text : Bytes} {word : String}
    (member : word ∈ spellings) : spellingWidth word text ≤ keywordWidth spellings text := by
  have grows : ∀ (words : List String) (start : Nat),
      start ≤ words.foldl (fun n word => max n (spellingWidth word text)) start := by
    intro words
    induction words with
    | nil => intro start; exact Nat.le_refl _
    | cons other words ih => intro start; exact Nat.le_trans (Nat.le_max_left _ _) (ih _)
  have step : ∀ (words : List String) (start : Nat), word ∈ words →
      spellingWidth word text ≤
        words.foldl (fun n word => max n (spellingWidth word text)) start := by
    intro words
    induction words with
    | nil => intro start absent; simp at absent
    | cons other words ih =>
      intro start present
      rcases List.mem_cons.mp present with same | later
      · subst same
        exact Nat.le_trans (Nat.le_max_right _ _) (grows words _)
      · exact ih _ later
  exact step spellings 0 member

/-- A text made of name bytes that begins a name and what stands behind it begins the name. -/
theorem prefix_of_boundary {word name rest : Bytes} (parts : word.all isNamePart = true)
    (stop : Boundary rest) (begins : word <+: name ++ rest) : word <+: name := by
  induction word generalizing name with
  | nil => exact List.nil_prefix
  | cons b word ih =>
    simp only [List.all_cons, Bool.and_eq_true] at parts
    cases name with
    | nil =>
      cases rest with
      | nil => simp at begins
      | cons c rest =>
        obtain ⟨rfl, _⟩ := List.cons_prefix_cons.mp begins
        have := (stop b (by simp)).1
        simp [this] at parts
    | cons c name =>
      obtain ⟨rfl, tail⟩ := List.cons_prefix_cons.mp begins
      exact List.cons_prefix_cons.mpr ⟨rfl, ih parts.2 tail⟩

theorem keyword_bytes_are_name_bytes :
    ∀ entry ∈ TokenKind.keywordTable, ∀ word ∈ entry.2, (utf8 word).all isNamePart = true := by
  decide

theorem spellingWidth_le_name {word : String} {name rest : Bytes}
    (parts : (utf8 word).all isNamePart = true) (stop : Boundary rest) :
    spellingWidth word (name ++ rest) ≤ name.length ∧
      (spellingWidth word (name ++ rest) = name.length → name = [] ∨ utf8 word = name) := by
  unfold spellingWidth
  split
  · rename_i begins
    have inside := prefix_of_boundary parts stop (List.isPrefixOf_iff_prefix.mp begins)
    exact ⟨inside.length_le, fun same => .inr (inside.eq_of_length same)⟩
  · exact ⟨Nat.zero_le _, fun empty => .inl (List.length_eq_zero_iff.mp empty.symm)⟩

def startsSymbol (b : UInt8) : Bool :=
  isSpace b || b == byte ';' || b == doubleQuote || b == byte ':' ||
    (symbols.any fun entry => (utf8 entry.2).head? == some b)

def startsNumber (b : UInt8) : Bool := isDigit b || b == byte '.'

theorem first_bytes_differ (b : UInt8) :
    (isNameStart b → startsSymbol b = false ∧ startsNumber b = false) ∧
      (startsNumber b → startsSymbol b = false ∧ isNameStart b = false) := by
  have table : ∀ n < 256,
      (isNameStart n.toUInt8 → startsSymbol n.toUInt8 = false ∧ startsNumber n.toUInt8 = false) ∧
        (startsNumber n.toUInt8 →
          startsSymbol n.toUInt8 = false ∧ isNameStart n.toUInt8 = false) := by
    decide +kernel
  simpa using table b.toNat b.toNat_lt

theorem spellingWidth_zero {word : String} {b : UInt8} {text : Bytes}
    (differs : ∀ c ∈ (utf8 word).head?, c ≠ b) : spellingWidth word (b :: text) = 0 := by
  unfold spellingWidth
  cases spelled : utf8 word with
  | nil => simp
  | cons c tail => simp [differs c (by simp [spelled])]

theorem keyword_first_bytes :
    ∀ entry ∈ TokenKind.keywordTable, ∀ word ∈ entry.2, ∀ c ∈ (utf8 word).head?,
      isNameStart c = true := by
  have all : (TokenKind.keywordTable.all fun entry => entry.2.all fun word =>
      (utf8 word).head?.all isNameStart) = true := by
    decide
  intro entry listed word spelled c first
  have fine := List.all_eq_true.mp (List.all_eq_true.mp all entry listed) word spelled
  exact (Option.all_eq_true _ _).mp fine c first

theorem symbol_width_zero {b : UInt8} {text : Bytes} (other : startsSymbol b = false)
    (q : Pattern) (member : q ∈ blankPatterns ++ symbols.map symbolPattern ++ sigilPatterns) :
    q.width (b :: text) = 0 := by
  simp only [startsSymbol, Bool.or_eq_false_iff, beq_eq_false_iff_ne, List.any_eq_false] at other
  obtain ⟨⟨⟨⟨blank, comment⟩, quote⟩, colon⟩, symbol⟩ := other
  simp only [blankPatterns, sigilPatterns, List.mem_append, List.mem_cons, List.mem_map,
    List.not_mem_nil, or_false] at member
  rcases member with ((rfl | rfl) | ⟨entry, listed, rfl⟩) | (rfl | rfl)
  · simp [run, blank]
  · simp [commentWidth, comment]
  · refine spellingWidth_zero fun c first same => symbol entry listed ?_
    rw [← same, Option.mem_def.mp first]
    simp
  · simp [sigilWidth, quote]
  · simp [sigilWidth, colon]

theorem keyword_width_zero {b : UInt8} {text : Bytes} (other : isNameStart b = false)
    (q : Pattern) (member : q ∈ TokenKind.keywordTable.map keywordPattern) :
    q.width (b :: text) = 0 := by
  obtain ⟨entry, listed, rfl⟩ := List.mem_map.mp member
  refine Nat.le_zero.mp (keywordWidth_le fun word spelled => Nat.le_of_eq ?_)
  refine spellingWidth_zero fun c first same => ?_
  have start := keyword_first_bytes entry listed word spelled c first
  rw [same, other] at start
  contradiction

theorem numberWidth_zero {b : UInt8} {text : Bytes} (other : startsNumber b = false) :
    numberWidth (b :: text) = 0 := by
  simp only [startsNumber, Bool.or_eq_false_iff, beq_eq_false_iff_ne] at other
  simp [numberWidth, run, fractionWidth, other.1, other.2]

theorem ne_nil_of_isName {name : Bytes} (named : isName name = true) : name ≠ [] := by
  rintro rfl
  simp [isName] at named

def otherPatterns : List Pattern :=
  blankPatterns ++ symbols.map symbolPattern ++ ⟨.number, numberWidth⟩ :: sigilPatterns

theorem other_width_zero {name rest : Bytes} (named : isName name = true) (q : Pattern)
    (member : q ∈ otherPatterns) : q.width (name ++ rest) = 0 := by
  cases name with
  | nil => simp [isName] at named
  | cons b tail =>
    simp only [isName, Bool.and_eq_true] at named
    have classes := (first_bytes_differ b).1 named.1
    simp only [otherPatterns, List.mem_append, List.mem_cons] at member
    rcases member with early | rfl | late
    · exact symbol_width_zero classes.1 q (List.mem_append_left _ (List.mem_append.mpr early))
    · exact numberWidth_zero classes.2
    · exact symbol_width_zero classes.1 q (List.mem_append_right _ late)

theorem keyword_width_le {name rest : Bytes} {entry : TokenKind × List String}
    (listed : entry ∈ TokenKind.keywordTable) (stop : Boundary rest) :
    (keywordPattern entry).width (name ++ rest) ≤ name.length :=
  keywordWidth_le fun word member =>
    (spellingWidth_le_name (keyword_bytes_are_name_bytes entry listed word member) stop).1

theorem keyword_width_eq_iff {name rest : Bytes} {entry : TokenKind × List String}
    (listed : entry ∈ TokenKind.keywordTable) (nonempty : name ≠ []) (stop : Boundary rest) :
    (keywordPattern entry).width (name ++ rest) = name.length ↔ name ∈ entry.2.map utf8 := by
  constructor
  · intro whole
    apply Classical.byContradiction
    intro absent
    have size := List.length_pos_iff.mpr nonempty
    have below : keywordWidth entry.2 (name ++ rest) ≤ name.length - 1 := by
      refine keywordWidth_le fun word member => ?_
      have parts := keyword_bytes_are_name_bytes entry listed word member
      obtain ⟨low, exactly⟩ := @spellingWidth_le_name word name rest parts stop
      have differs : spellingWidth word (name ++ rest) ≠ name.length := by
        intro same
        rcases exactly same with empty | spelled
        · exact nonempty empty
        · exact absent (spelled ▸ List.mem_map_of_mem member)
      omega
    simp only [keywordPattern] at whole
    omega
  · intro spelled
    obtain ⟨word, member, rfl⟩ := List.mem_map.mp spelled
    have upper := @keyword_width_le (utf8 word) rest entry listed stop
    have lower := @le_keywordWidth entry.2 (utf8 word ++ rest) word member
    have taken : spellingWidth word (utf8 word ++ rest) = (utf8 word).length := by
      simp [spellingWidth]
    simp only [keywordPattern] at upper ⊢
    omega

def wordKind (name : Bytes) : TokenKind :=
  match TokenKind.keywordTable.find? fun entry => (entry.2.map utf8).contains name with
  | some entry => entry.1
  | none => .identifier

theorem width_le_name {name rest : Bytes} (named : isName name = true) (stop : Boundary rest)
    (q : Pattern) (member : q ∈ patterns) : q.width (name ++ rest) ≤ name.length := by
  have sorts : q ∈ otherPatterns ∨ q ∈ TokenKind.keywordTable.map keywordPattern ∨
      q = ⟨.identifier, nameWidth⟩ := by
    simp only [patterns_eq, otherPatterns, List.mem_append, List.mem_singleton] at member ⊢
    grind
  rcases sorts with other | keyword | rfl
  · rw [other_width_zero named q other]
    exact Nat.zero_le _
  · obtain ⟨entry, listed, rfl⟩ := List.mem_map.mp keyword
    exact keyword_width_le listed stop
  · exact Nat.le_of_eq (nameWidth_append named stop)

/-- The longest match at a name is the whole name, and reserved words win over identifiers. -/
theorem longestMatch_name {name rest : Bytes} (named : isName name = true)
    (stop : Boundary rest) : longestMatch (name ++ rest) = ⟨wordKind name, name.length⟩ := by
  have nonempty := ne_nil_of_isName named
  have size := List.length_pos_iff.mpr nonempty
  have skipped : ∀ ps : List Pattern, ps ⊆ otherPatterns →
      ps.find? (fun q => q.width (name ++ rest) == name.length) = none := by
    intro ps inside
    refine List.find?_eq_none.mpr fun q member => ?_
    rw [other_width_zero named q (inside member)]
    simp only [beq_iff_eq]
    omega
  have keywords : (TokenKind.keywordTable.map keywordPattern).find?
      (fun q => q.width (name ++ rest) == name.length) =
        (TokenKind.keywordTable.find? fun entry => (entry.2.map utf8).contains name).map
          keywordPattern := by
    rw [List.find?_map]
    congr 1
    refine List.find?_congr fun entry listed => ?_
    rw [Bool.eq_iff_iff, Function.comp, beq_iff_eq, List.contains_iff_mem]
    exact keyword_width_eq_iff listed nonempty stop
  have last : nameWidth (name ++ rest) = name.length := nameWidth_append named stop
  have found := longestMatch_of_find size (width_le_name named stop) (p := match
      TokenKind.keywordTable.find? fun entry => (entry.2.map utf8).contains name with
      | some entry => keywordPattern entry
      | none => ⟨.identifier, nameWidth⟩) (by
    rw [patterns_eq, List.find?_append, List.find?_append, List.find?_append, List.find?_append,
      skipped blankPatterns (by simp [otherPatterns]), keywords,
      skipped (symbols.map symbolPattern) (by simp [otherPatterns]),
      skipped (⟨.number, numberWidth⟩ :: sigilPatterns) (by simp [otherPatterns])]
    cases TokenKind.keywordTable.find? fun entry => (entry.2.map utf8).contains name with
    | some entry => simp
    | none => simp [last])
  rw [found, wordKind]
  split <;> rfl

theorem startsNumber_of_isDecimal {text : Bytes} (number : isDecimal text = true) :
    ∃ b tail, text = b :: tail ∧ startsNumber b = true := by
  unfold isDecimal at number
  split at number
  · simp only [Bool.and_eq_true, Bool.not_eq_true', List.isEmpty_eq_false_iff] at number
    obtain ⟨b, tail, rfl⟩ := List.exists_cons_of_ne_nil number.1
    simp only [List.all_cons, Bool.and_eq_true] at number
    exact ⟨b, tail, rfl, by simp [startsNumber, number.2.1]⟩
  · rename_i whole fraction cut
    simp only [Bool.and_eq_true] at number
    rw [cutAt_eq_some cut]
    cases whole with
    | nil => exact ⟨_, _, rfl, by simp [startsNumber]⟩
    | cons b tail =>
      simp only [List.all_cons, Bool.and_eq_true] at number
      exact ⟨b, _, rfl, by simp [startsNumber, number.1.1.1]⟩

theorem longestMatch_number {text rest : Bytes} (number : isDecimal text = true)
    (stop : Boundary rest) : longestMatch (text ++ rest) = ⟨.number, text.length⟩ := by
  have whole := numberWidth_append number stop
  obtain ⟨b, tail, rfl, start⟩ := startsNumber_of_isDecimal number
  have classes := (first_bytes_differ b).2 start
  have others : ∀ q ∈ patterns, q = ⟨.number, numberWidth⟩ ∨ q.width (b :: tail ++ rest) = 0 := by
    intro q member
    rcases mem_patterns member with same | symbol | keyword | rfl
    · exact .inl same
    · exact .inr (symbol_width_zero classes.1 q symbol)
    · exact .inr (keyword_width_zero classes.2 q keyword)
    · exact .inr (by simp [nameWidth, classes.2])
  have listed : (⟨.number, numberWidth⟩ : Pattern) ∈ patterns := by simp [patterns_eq]
  have nonempty : 0 < numberWidth (b :: tail ++ rest) := by
    rw [whole]
    simp
  rw [longestMatch_of_only listed nonempty others, ← whole]

theorem not_space_of_class {b : UInt8} (other : startsSymbol b = false) : isSpace b = false := by
  simp only [startsSymbol, Bool.or_eq_false_iff] at other
  exact other.1.1.1.1

theorem name_first {name : Bytes} (named : isName name = true) :
    name.head?.map isSpace = some false := by
  cases name with
  | nil => simp [isName] at named
  | cons b tail =>
    simp only [isName, Bool.and_eq_true] at named
    simp [not_space_of_class ((first_bytes_differ b).1 named.1).1]

theorem decimal_first {text : Bytes} (number : isDecimal text = true) :
    text.head?.map isSpace = some false := by
  obtain ⟨b, tail, rfl, start⟩ := startsNumber_of_isDecimal number
  simp [not_space_of_class ((first_bytes_differ b).2 start).1]

theorem longestMatch_symbol {rest : Bytes} :
    ∀ entry ∈ symbols, longestMatch (utf8 entry.2 ++ rest) = ⟨entry.1, (utf8 entry.2).length⟩ := by
  simp only [symbols, List.mem_cons, List.not_mem_nil, or_false]
  rintro _ (rfl | rfl | rfl | rfl | rfl | rfl | rfl | rfl | rfl | rfl | rfl | rfl) <;> rfl

theorem longestMatch_space {rest : Bytes} (stop : ∀ b ∈ rest.head?, isSpace b = false) :
    longestMatch (space :: rest) = ⟨.whitespace, 1⟩ := by
  have one : longestMatch (space :: rest) = ⟨.whitespace, run isSpace rest + 1⟩ := rfl
  have spaceless : run isSpace rest = 0 := @run_append isSpace [] rest rfl stop
  rw [one, spaceless]

theorem longestMatch_sigil {sigil : UInt8} {k : TokenKind} {name rest : Bytes}
    (listed : (sigil, k) ∈ [(doubleQuote, TokenKind.varName), (byte ':', .paramName)])
    (named : isName name = true) (stop : Boundary rest) :
    longestMatch (sigil :: name ++ rest) = ⟨k, (sigil :: name).length⟩ := by
  have only : longestMatch (sigil :: name ++ rest) =
      Match.longer (sigil :: name ++ rest) ⟨.illegal, 0⟩ ⟨k, sigilWidth sigil⟩ := by
    simp only [List.mem_cons, Prod.mk.injEq, List.not_mem_nil, or_false] at listed
    rcases listed with ⟨rfl, rfl⟩ | ⟨rfl, rfl⟩ <;> rfl
  have size := List.length_pos_iff.mpr (ne_nil_of_isName named)
  have width : sigilWidth sigil (sigil :: (name ++ rest)) = name.length + 1 := by
    simp only [sigilWidth, nameWidth_append named stop]
    simp only [BEq.rfl, size, decide_true, Bool.and_self, if_true]
    omega
  rw [only]
  simp [Match.longer, width]

theorem piecesFrom_eq_drop (n : Nat) (text : Bytes) : piecesFrom n text = pieces (text.drop n) := by
  induction n generalizing text with
  | zero => rfl
  | succ n ih =>
    cases text with
    | nil => simp [pieces, piecesFrom]
    | cons b rest => rw [piecesFrom, List.drop_succ_cons, ih]

theorem pieces_of_longestMatch {word rest : Bytes} {k : TokenKind} (nonempty : word ≠ [])
    (longest : longestMatch (word ++ rest) = ⟨k, word.length⟩) :
    pieces (word ++ rest) = ⟨k, word⟩ :: pieces rest := by
  obtain ⟨b, tail, rfl⟩ := List.exists_cons_of_ne_nil nonempty
  have width : (longestMatch (b :: (tail ++ rest))).width = tail.length + 1 := by
    rw [← List.cons_append, longest, List.length_cons]
  have kind : (longestMatch (b :: (tail ++ rest))).kind = k := by
    rw [← List.cons_append, longest]
  have taken : (b :: (tail ++ rest)).take (tail.length + 1) = b :: tail := by simp
  have left : (tail ++ rest).drop tail.length = rest := by simp
  rw [List.cons_append, pieces, piecesFrom, width, kind, taken, Nat.add_sub_cancel,
    piecesFrom_eq_drop, left]
  simp

end TurtleLogo.Scan
