import Mathlib.Data.List.Forall2
import TurtleLogo.Proofs.Scan.Pieces

/-!
The words of every kind of token. A rule says which words a kind has, apart from any text; the width
of the kind's pattern is the length of the longest word with which a text begins. So the longest
match takes the longest word of all rules, and its kind is that of the first rule with this word.
-/
namespace TurtleLogo.Scan
open Text

structure Rule where
  kind : TokenKind
  accepts : Bytes → Bool

def isRun (p : UInt8 → Bool) (word : Bytes) : Bool := !word.isEmpty && word.all p

def isComment : Bytes → Bool
  | [] => false
  | b :: line => b == byte ';' && line.all (· != newline)

def isSigiled (sigil : UInt8) : Bytes → Bool
  | [] => false
  | b :: name => b == sigil && isName name

def keywordRule (entry : TokenKind × List String) : Rule :=
  ⟨entry.1, fun word => entry.2.any (utf8 · == word)⟩

def symbolRule (entry : TokenKind × String) : Rule := ⟨entry.1, fun word => utf8 entry.2 == word⟩

def rules : List Rule :=
  [⟨.whitespace, isRun isSpace⟩, ⟨.comment, isComment⟩] ++
  TokenKind.keywordTable.map keywordRule ++ symbols.map symbolRule ++
  [⟨.number, isDecimal⟩, ⟨.varName, isSigiled doubleQuote⟩, ⟨.paramName, isSigiled (byte ':')⟩,
   ⟨.identifier, isName⟩]

def Begins (text : Bytes) : Prop := ∃ rule ∈ rules, ∃ word, rule.accepts word = true ∧ word <+: text

/-- A width is the length of the longest word with which a text begins, zero if there is none. -/
structure Measures (width : Bytes → Nat) (accepts : Bytes → Bool) : Prop where
  empty : accepts [] = false
  taken (text : Bytes) : 0 < width text → accepts (text.take (width text)) = true
  longest {text word : Bytes} : accepts word = true → word <+: text → word.length ≤ width text

theorem length_le_run {p : UInt8 → Bool} {word text : Bytes} (all : word.all p = true)
    (begins : word <+: text) : word.length ≤ run p text := by
  obtain ⟨rest, rfl⟩ := begins
  rw [run, List.takeWhile_append_of_pos (List.all_eq_true.mp all), List.length_append]
  omega

theorem all_take_run (p : UInt8 → Bool) (text : Bytes) : (text.take (run p text)).all p = true := by
  rw [take_run]
  exact List.all_takeWhile

theorem run_measures (p : UInt8 → Bool) : Measures (run p) (isRun p) where
  empty := rfl
  taken text some_width := by
    have nonempty : text.take (run p text) ≠ [] := by
      rw [take_run]
      exact List.length_pos_iff.mp some_width
    simp [isRun, nonempty, all_take_run]
  longest accepted begins := by
    simp only [isRun, Bool.and_eq_true] at accepted
    exact length_le_run accepted.2 begins

theorem headed_measures {first p : UInt8 → Bool} {width : Bytes → Nat} {accepts : Bytes → Bool}
    (unbegun : width [] = 0) (empty : accepts [] = false)
    (behind : ∀ b rest, width (b :: rest) = if first b then 1 + run p rest else 0)
    (words : ∀ b parts, accepts (b :: parts) = (first b && parts.all p)) :
    Measures width accepts where
  empty := empty
  taken text some_width := by
    cases text with
    | nil => omega
    | cons b rest =>
      rw [behind] at some_width ⊢
      split at some_width
      · rename_i start
        rw [if_pos start, Nat.add_comm, List.take_succ_cons, words, start, all_take_run]
        rfl
      · omega
  longest {text word} accepted begins := by
    cases word with
    | nil => exact Nat.zero_le _
    | cons b parts =>
      rw [words, Bool.and_eq_true] at accepted
      cases text with
      | nil => simp at begins
      | cons c rest =>
        obtain ⟨rfl, tail⟩ := List.cons_prefix_cons.mp begins
        have inner := length_le_run accepted.2 tail
        rw [behind, if_pos accepted.1, List.length_cons]
        omega

theorem comment_measures : Measures commentWidth isComment :=
  headed_measures rfl rfl (fun _ _ => rfl) fun _ _ => rfl

theorem name_measures : Measures nameWidth isName :=
  headed_measures rfl rfl (fun _ _ => rfl) fun _ _ => rfl

theorem sigil_measures (sigil : UInt8) : Measures (sigilWidth sigil) (isSigiled sigil) where
  empty := rfl
  taken text some_width := by
    cases text with
    | nil => simp [sigilWidth] at some_width
    | cons b rest =>
      rw [sigilWidth] at some_width ⊢
      split at some_width
      · rename_i start
        rw [if_pos start]
        simp only [Bool.and_eq_true, decide_eq_true_eq] at start
        simp only [Nat.add_comm 1, List.take_succ_cons, isSigiled, start.1, Bool.true_and]
        exact name_measures.taken rest start.2
      · omega
  longest {text word} accepted begins := by
    cases word with
    | nil => exact Nat.zero_le _
    | cons b name =>
      simp only [isSigiled, Bool.and_eq_true] at accepted
      cases text with
      | nil => simp at begins
      | cons c rest =>
        obtain ⟨rfl, tail⟩ := List.cons_prefix_cons.mp begins
        have inner := name_measures.longest accepted.2 tail
        have size := List.length_pos_iff.mpr (ne_nil_of_isName accepted.2)
        have named : 0 < nameWidth rest := by omega
        simp only [sigilWidth, accepted.1, named, decide_true, Bool.and_self, if_true,
          List.length_cons]
        omega

theorem spelling_taken {word : String} {text : Bytes} (some_width : 0 < spellingWidth word text) :
    utf8 word = text.take (spellingWidth word text) := by
  unfold spellingWidth at some_width ⊢
  split at some_width
  · rename_i begins
    rw [if_pos begins]
    exact List.prefix_iff_eq_take.mp (List.isPrefixOf_iff_prefix.mp begins)
  · omega

theorem spellingWidth_of_begins {word : String} {text : Bytes} (begins : utf8 word <+: text) :
    spellingWidth word text = (utf8 word).length := by
  rw [spellingWidth, if_pos (List.isPrefixOf_iff_prefix.mpr begins)]

theorem spelling_measures {word : String} (nonempty : utf8 word ≠ []) :
    Measures (spellingWidth word) (utf8 word == ·) where
  empty := by simpa using nonempty
  taken text some_width := by simpa using spelling_taken some_width
  longest {text other} accepted begins := by
    obtain rfl : utf8 word = other := by simpa using accepted
    exact Nat.le_of_eq (spellingWidth_of_begins begins).symm

theorem keywordWidth_reached (spellings : List String) (text : Bytes) :
    keywordWidth spellings text = 0 ∨
      ∃ word ∈ spellings, spellingWidth word text = keywordWidth spellings text := by
  have step : ∀ (words : List String) (start : Nat),
      words.foldl (fun n word => max n (spellingWidth word text)) start = start ∨
        ∃ word ∈ words, spellingWidth word text =
          words.foldl (fun n word => max n (spellingWidth word text)) start := by
    intro words
    induction words with
    | nil => intro start; exact .inl rfl
    | cons word words ih =>
      intro start
      rw [List.foldl_cons]
      rcases ih (max start (spellingWidth word text)) with same | ⟨other, member, reached⟩
      · rw [same]
        rcases Nat.le_total start (spellingWidth word text) with low | high
        · right
          exact ⟨word, by simp, (Nat.max_eq_right low).symm⟩
        · left
          exact Nat.max_eq_left high
      · right
        exact ⟨other, List.mem_cons_of_mem word member, reached⟩
  exact step spellings 0

theorem keyword_measures {spellings : List String} (nonempty : ∀ word ∈ spellings, utf8 word ≠ []) :
    Measures (keywordWidth spellings) (fun word => spellings.any (utf8 · == word)) where
  empty := by simpa using nonempty
  taken text some_width := by
    rcases keywordWidth_reached spellings text with unreached | ⟨word, member, reached⟩
    · omega
    · rw [← reached] at some_width ⊢
      exact List.any_eq_true.mpr ⟨word, member, by simpa using spelling_taken some_width⟩
  longest {text other} accepted begins := by
    obtain ⟨word, member, spelled⟩ := List.any_eq_true.mp accepted
    obtain rfl : utf8 word = other := by simpa using spelled
    have bound := @le_keywordWidth _ text _ member
    rwa [spellingWidth_of_begins begins] at bound

theorem digits_have_no_point {digits : Bytes} (all : digits.all isDigit = true) :
    ∀ b ∈ digits, b ≠ byte '.' := by
  rintro b member rfl
  have := List.all_eq_true.mp all _ member
  revert this
  decide

theorem fractionWidth_pos {tail : Bytes} (some_width : 0 < fractionWidth tail) :
    ∃ more, tail = byte '.' :: more ∧ 0 < run isDigit more ∧
      fractionWidth tail = run isDigit more + 1 := by
  cases tail with
  | nil => simp [fractionWidth] at some_width
  | cons b more =>
    rw [fractionWidth] at some_width ⊢
    split at some_width
    · rename_i point
      rw [if_pos point]
      simp only [Bool.and_eq_true, beq_iff_eq, decide_eq_true_eq] at point
      exact ⟨more, by rw [point.1], point.2, Nat.add_comm _ _⟩
    · omega

theorem number_taken (text : Bytes) (some_width : 0 < numberWidth text) :
    isDecimal (text.take (numberWidth text)) = true := by
  have whole := all_take_run isDigit text
  have unpointed := digits_have_no_point whole
  unfold numberWidth at some_width ⊢
  rw [List.take_add]
  rcases Nat.eq_zero_or_pos (fractionWidth (text.drop (run isDigit text))) with absent | present
  · have nonempty : text.take (run isDigit text) ≠ [] := by
      rw [take_run]
      apply List.length_pos_iff.mp
      rw [absent] at some_width
      exact some_width
    rw [absent, List.take_zero, List.append_nil, isDecimal, cutAt_eq_none unpointed]
    simp [nonempty, whole]
  · obtain ⟨more, behind, digits, width⟩ := fractionWidth_pos present
    have fraction := (run_measures isDigit).taken more digits
    simp only [isRun, Bool.and_eq_true] at fraction
    rw [width, behind, List.take_succ_cons, isDecimal, cutAt_append unpointed]
    simp [whole, fraction]

theorem number_measures : Measures numberWidth isDecimal where
  empty := rfl
  taken := number_taken
  longest {text word} accepted begins := by
    unfold isDecimal at accepted
    split at accepted
    · simp only [Bool.and_eq_true] at accepted
      have digits := length_le_run accepted.2 begins
      unfold numberWidth
      omega
    · rename_i whole fraction cut
      simp only [Bool.and_eq_true, Bool.not_eq_true', List.isEmpty_eq_false_iff] at accepted
      obtain ⟨rest, rfl⟩ := begins
      have point : isDigit (byte '.') = false := by decide
      have front : run isDigit (whole ++ byte '.' :: (fraction ++ rest)) = whole.length :=
        run_append accepted.1.1 (by simp [point])
      have back : fraction.length ≤ run isDigit (fraction ++ rest) :=
        length_le_run accepted.2 (List.prefix_append _ _)
      have some_digit := List.length_pos_iff.mpr accepted.1.2
      have digits : 0 < run isDigit (fraction ++ rest) := by omega
      rw [cutAt_eq_some cut, List.append_assoc, List.cons_append, numberWidth, front,
        List.drop_left, fractionWidth]
      simp only [BEq.rfl, digits, decide_true, Bool.and_self, if_true, List.length_append,
        List.length_cons]
      omega

theorem spellings_nonempty :
    (∀ entry ∈ TokenKind.keywordTable, ∀ word ∈ entry.2, utf8 word ≠ []) ∧
      ∀ entry ∈ symbols, utf8 entry.2 ≠ [] := by
  decide

def Describes (rule : Rule) (pattern : Pattern) : Prop :=
  rule.kind = pattern.kind ∧ Measures pattern.width rule.accepts

theorem rules_describe_patterns : List.Forall₂ Describes rules patterns := by
  have keywords : List.Forall₂ Describes (TokenKind.keywordTable.map keywordRule)
      (TokenKind.keywordTable.map keywordPattern) := by
    rw [List.forall₂_map_left_iff, List.forall₂_map_right_iff, List.forall₂_same]
    intro entry listed
    exact ⟨rfl, keyword_measures (spellings_nonempty.1 entry listed)⟩
  have marks : List.Forall₂ Describes (symbols.map symbolRule) (symbols.map symbolPattern) := by
    rw [List.forall₂_map_left_iff, List.forall₂_map_right_iff, List.forall₂_same]
    intro entry listed
    exact ⟨rfl, spelling_measures (spellings_nonempty.2 entry listed)⟩
  have blanks : List.Forall₂ Describes [⟨.whitespace, isRun isSpace⟩, ⟨.comment, isComment⟩]
      blankPatterns :=
    .cons ⟨rfl, run_measures isSpace⟩ (.cons ⟨rfl, comment_measures⟩ .nil)
  have others : List.Forall₂ Describes [⟨.number, isDecimal⟩, ⟨.varName, isSigiled doubleQuote⟩,
      ⟨.paramName, isSigiled (byte ':')⟩, ⟨.identifier, isName⟩]
      (⟨.number, numberWidth⟩ :: sigilPatterns ++ [⟨.identifier, nameWidth⟩]) :=
    .cons ⟨rfl, number_measures⟩ (.cons ⟨rfl, sigil_measures _⟩ (.cons ⟨rfl, sigil_measures _⟩
      (.cons ⟨rfl, name_measures⟩ .nil)))
  rw [patterns_eq, List.append_assoc _ (⟨.number, numberWidth⟩ :: sigilPatterns)]
  exact List.rel_append (List.rel_append (List.rel_append blanks keywords) marks) others

theorem exists_pattern {rule : Rule} (listed : rule ∈ rules) :
    ∃ pattern ∈ patterns, Describes rule pattern := by
  have both : ∀ {rs : List Rule} {ps : List Pattern}, List.Forall₂ Describes rs ps → rule ∈ rs →
      ∃ pattern ∈ ps, Describes rule pattern := by
    intro rs ps pairs
    induction pairs with
    | nil => simp
    | @cons r p rs ps first rest ih =>
      intro member
      rcases List.mem_cons.mp member with rfl | later
      · exact ⟨p, by simp, first⟩
      · obtain ⟨pattern, there, describes⟩ := ih later
        exact ⟨pattern, List.mem_cons_of_mem p there, describes⟩
  exact both rules_describe_patterns listed

theorem le_longest {text : Bytes} {best : Match} {ps : List Pattern} :
    best.width ≤ (ps.foldl (Match.longer text) best).width ∧
      ∀ p ∈ ps, p.width text ≤ (ps.foldl (Match.longer text) best).width := by
  induction ps generalizing best with
  | nil => simp
  | cons p ps ih =>
    obtain ⟨start, others⟩ := @ih (Match.longer text best p)
    have first : best.width ≤ (Match.longer text best p).width ∧
        p.width text ≤ (Match.longer text best p).width := by
      unfold Match.longer
      split
      · exact ⟨by simp only; omega, Nat.le_refl _⟩
      · exact ⟨Nat.le_refl _, by omega⟩
    rw [List.foldl_cons]
    refine ⟨Nat.le_trans first.1 start, ?_⟩
    intro q member
    rcases List.mem_cons.mp member with rfl | later
    · exact Nat.le_trans first.2 start
    · exact others q later

theorem pattern_width_le (text : Bytes) :
    ∀ p ∈ patterns, p.width text ≤ (longestMatch text).width :=
  le_longest.2

/-- No word with which a text begins is longer than the longest match. -/
theorem word_le_longestMatch {rule : Rule} {text word : Bytes} (listed : rule ∈ rules)
    (accepted : rule.accepts word = true) (begins : word <+: text) :
    word.length ≤ (longestMatch text).width := by
  obtain ⟨pattern, there, -, measures⟩ := exists_pattern listed
  exact Nat.le_trans (measures.longest accepted begins) (pattern_width_le text pattern there)

theorem accepts_iff_width {rule : Rule} {pattern : Pattern} {text : Bytes} {width : Nat}
    (describes : Describes rule pattern) (positive : 0 < width) (inside : width ≤ text.length)
    (bound : pattern.width text ≤ width) :
    rule.accepts (text.take width) = (pattern.width text == width) := by
  rw [Bool.eq_iff_iff, beq_iff_eq]
  constructor
  · intro accepted
    have size := describes.2.longest accepted (List.take_prefix width text)
    rw [List.length_take] at size
    omega
  · intro same
    have taken := describes.2.taken text
    rw [same] at taken
    exact taken positive

theorem find_kind {p : Rule → Bool} {q : Pattern → Bool} {rs : List Rule} {ps : List Pattern}
    (pairs : List.Forall₂ Describes rs ps)
    (agree : ∀ r, ∀ pattern ∈ ps, Describes r pattern → p r = q pattern) :
    (rs.find? p).map Rule.kind = (ps.find? q).map Pattern.kind := by
  induction pairs with
  | nil => rfl
  | @cons r pattern rs ps first rest ih =>
    have same := agree r pattern (by simp) first
    have later := ih fun r other member => agree r other (List.mem_cons_of_mem pattern member)
    rw [List.find?_cons, List.find?_cons, same]
    cases q pattern
    · exact later
    · exact congrArg some first.1

theorem longestMatch_kind {text : Bytes} (positive : 0 < (longestMatch text).width) :
    (rules.find? (·.accepts (text.take (longestMatch text).width))).map Rule.kind =
      some (longestMatch text).kind := by
  have bound := pattern_width_le text
  have inside := longestMatch_width_le text
  rw [find_kind rules_describe_patterns fun rule pattern there describes =>
    accepts_iff_width describes positive inside (bound pattern there)]
  cases found : patterns.find? fun pattern => pattern.width text == (longestMatch text).width with
  | some pattern =>
    have longest := longestMatch_of_find positive bound found
    rw [Option.map_some, longest]
  | none =>
    -- all patterns would be shorter, and so would be the longest match
    have shorter : ∀ p ∈ patterns, p.width text < (longestMatch text).width := by
      intro p member
      have differs : p.width text ≠ (longestMatch text).width := by
        simpa using List.find?_eq_none.mp found p member
      have := bound p member
      omega
    exact absurd (longest_below positive shorter) (Nat.lt_irrefl _)

theorem begins_iff (text : Bytes) : Begins text ↔ 0 < (longestMatch text).width := by
  constructor
  · rintro ⟨rule, listed, word, accepted, begins⟩
    have bound := word_le_longestMatch listed accepted begins
    have nonempty : word ≠ [] := by
      rintro rfl
      obtain ⟨_, -, -, measures⟩ := exists_pattern listed
      rw [measures.empty] at accepted
      contradiction
    have size := List.length_pos_iff.mpr nonempty
    omega
  · intro positive
    obtain ⟨rule, found, -⟩ := Option.map_eq_some_iff.mp (longestMatch_kind positive)
    have accepted := List.find?_some found
    exact ⟨rule, List.mem_of_find?_eq_some found, _, accepted, List.take_prefix _ _⟩

theorem find_name {name : Bytes} (named : isName name = true) :
    (rules.find? (·.accepts name)).map Rule.kind = some (wordKind name) := by
  have whole := @longestMatch_name name [] named (by simp [Boundary])
  rw [List.append_nil] at whole
  have size := List.length_pos_iff.mpr (ne_nil_of_isName named)
  have kind := @longestMatch_kind name (by rw [whole]; exact size)
  rwa [whole, List.take_length] at kind

end TurtleLogo.Scan
