import TurtleLogo.Proofs.Editor.Words
import TurtleLogo.Proofs.Program.Standing
import TurtleLogo.Proofs.Scan.Adjacent

/-!
The words of an editor and those of the language. Both go on as far as there are letters, digits and
underscores, but the editor looks to both sides of the cursor: digits in front of a name belong to
its word, although the scanner ends a number there. In all other places the word is the identifier,
since nothing else that touches one could be in a word.
-/
namespace TurtleLogo

namespace Text
open Scan

theorem isWordRune_of_low {b : UInt8} (low : b < 0x80) : isWordRune b.toNat = isNamePart b := by
  have table : ∀ n < 256, n.toUInt8 < 0x80 → isWordRune n.toUInt8.toNat = isNamePart n.toUInt8 := by
    decide +kernel
  simpa using table b.toNat b.toNat_lt (by simpa using low)

theorem Seam.before_all_low {back : Bytes} (low : ∀ b ∈ back, b < 0x80) (front : Bytes) :
    Seam front back := by
  cases back with
  | nil => exact .nil_right front
  | cons b back => exact .before_low (low b List.mem_cons_self) front back

theorem runes_concat_low {b : UInt8} (low : b < 0x80) (text : Bytes) :
    runes (text ++ [b]) = runes text ++ [b.toNat] := by
  rw [runes_append (.before_low low text []), runes_cons_low low]
  rfl

theorem units_of_all_low {text : Bytes} (low : ∀ b ∈ text, b < 0x80) :
    (units text).length = text.length := by
  have narrow : ∀ b ∈ text, utf16 b.toNat = [b.toNat] := by
    intro b member
    have small : b.toNat < 0x10000 := Nat.lt_trans b.toNat_lt (by decide)
    exact if_neg (Nat.not_le.mpr small)
  rw [units, runes_of_all_low low, List.flatMap_map, List.flatMap_congr narrow]
  simp

end Text

open Text Scan

theorem last_rune_of_ends {text : Bytes} (ends : ∀ b ∈ text.getLast?, EndsWords b) :
    ∀ r ∈ (runes text).getLast?, isWordRune r = false := by
  obtain rfl | ⟨front, b, rfl⟩ := List.eq_nil_or_concat' text
  · exact fun r last => by contradiction
  · obtain ⟨other, low⟩ := ends b List.getLast?_concat
    intro r last
    rw [runes_concat_low low, List.getLast?_concat] at last
    obtain rfl := Option.some.inj last
    rw [isWordRune_of_low low, other]

theorem first_rune_of_ends {text : Bytes} (ends : ∀ b ∈ text.head?, EndsWords b) :
    ∀ r ∈ (runes text).head?, isWordRune r = false := by
  cases text with
  | nil => exact fun r first => by contradiction
  | cons b rest =>
    obtain ⟨other, low⟩ := ends b rfl
    intro r first
    rw [runes_cons_low low] at first
    obtain rfl := Option.some.inj first
    rw [isWordRune_of_low low, other]

namespace Editor.Document

/-- The range of the word that an identifier is in: it begins with the digits that touch it. -/
def wordRange (d : Document) (digits : Nat) (t : Token) : Range :=
  let range := d.span t.pos (runeCount t.literal)
  ⟨⟨range.start.line, range.start.character - digits⟩, range.stop⟩

end Editor.Document

namespace NameStands
variable {source stem rest : Bytes} {t : Token}

theorem word_parts (stands : NameStands source t stem rest) :
    ∀ b ∈ digitsBefore source t ++ t.literal, isNamePart b = true := by
  intro b member
  rcases List.mem_append.mp member with digit | letter
  · rw [isNamePart, List.all_eq_true.mp stands.digits b digit, Bool.or_true]
  · have named := stands.name
    cases literal : t.literal with
    | nil =>
      rw [literal] at letter
      contradiction
    | cons c tail =>
      rw [literal] at letter named
      simp only [isName, Bool.and_eq_true, List.all_eq_true] at named
      rcases List.mem_cons.mp letter with rfl | later
      · rw [isNamePart, named.1, Bool.true_or]
      · exact named.2 b later

theorem word_low (stands : NameStands source t stem rest) :
    ∀ b ∈ digitsBefore source t ++ t.literal, b < 0x80 :=
  fun b member => low_byte b (.inr (stands.word_parts b member))

theorem word (stands : NameStands source t stem rest) :
    Word (digitsBefore source t ++ t.literal) := by
  refine ⟨by simp [ne_nil_of_isName stands.name], fun b member => ?_⟩
  refine Bool.eq_false_iff.mpr fun blank => ?_
  have part := stands.word_parts b member
  rw [(endsWords_of_space b blank).1] at part
  contradiction

theorem inLine (stands : NameStands source t stem rest) :
    InLine source t.pos t.literal (lastLine stem ++ digitsBefore source t) (firstLine rest) := by
  have low := stands.word_low
  have no_newline := stands.word.no_newline
  rw [List.mem_append, not_or] at no_newline
  have apart : Seam t.literal rest :=
    .of_all_low (fun b member => low b (List.mem_append_right _ member)) rest
  have seam : Seam (stem ++ digitsBefore source t) (t.literal ++ rest) := by
    obtain ⟨c, tail, literal⟩ := List.exists_cons_of_ne_nil (ne_nil_of_isName stands.name)
    rw [literal]
    exact .before_low
      (low c (List.mem_append_right _ (by rw [literal]; exact List.mem_cons_self))) _ _
  have cut := InLine.of_cut seam apart no_newline.2
  rw [List.append_assoc, ← stands.parts, ← stands.pos, lastLine_append_one _ no_newline.1] at cut
  exact cut

open Editor

theorem lineRunes (stands : NameStands source t stem rest) :
    (Document.ofText source).lineRunes? (t.pos.line - 1 : Nat) =
      some (runes (lastLine stem) ++ (runes (digitsBefore source t ++ t.literal) ++
        runes (withoutReturns (firstLine rest)))) := by
  have word := stands.word
  obtain ⟨c, tail, starts⟩ := List.exists_cons_of_ne_nil word.1
  have low := stands.word_low
  have line : (Document.ofText source).lines[t.pos.line - 1]? =
      some (lastLine stem ++ ((digitsBefore source t ++ t.literal) ++ firstLine rest)) := by
    refine stands.inLine.line.trans (congrArg some ?_)
    simp only [List.append_assoc]
  have front (back : Bytes) :
      Seam (lastLine stem) ((digitsBefore source t ++ t.literal) ++ back) := by
    rw [starts]
    exact .before_low (low c (by rw [starts]; exact List.mem_cons_self)) _ _
  have inside : ¬((t.pos.line - 1 : Nat) : Int) < 0 := by omega
  rw [Document.lineRunes?, if_neg inside, Int.toNat_natCast, line, Option.map_some,
    withoutReturns, dropEndWhile_behind _ _ word.1 word.no_return, runes_append (front _),
    runes_append (.of_all_low low _)]
  rfl

theorem wordRun (stands : NameStands source t stem rest) :
    WordRun (runes (lastLine stem)) (runes (digitsBefore source t ++ t.literal))
      (runes (withoutReturns (firstLine rest))) := by
  have low := stands.word_low
  refine ⟨?_, ?_, ?_, ?_⟩
  · rw [runes_of_all_low low]
    exact fun empty => stands.word.1 (List.map_eq_nil_iff.mp empty)
  · intro r member
    rw [runes_of_all_low low] at member
    obtain ⟨b, listed, rfl⟩ := List.mem_map.mp member
    rw [isWordRune_of_low (low b listed), stands.word_parts b listed]
  · refine last_rune_of_ends fun b last => stands.before b ?_
    obtain ⟨front, parts, -⟩ := lastLine_seam stem
    have nonempty : lastLine stem ≠ [] := by
      intro empty
      rw [empty] at last
      contradiction
    rw [parts, List.getLast?_append_of_ne_nil _ nonempty]
    exact last
  · refine first_rune_of_ends fun b next => stands.behind b ?_
    obtain ⟨returns, shown, -⟩ := withoutReturns_split (firstLine rest)
    obtain ⟨others, parts, -⟩ := firstLine_seam rest
    obtain ⟨more, starts⟩ := List.head?_eq_some_iff.mp next
    rw [parts, shown, starts]
    rfl

/-- From every place along a name the name is found, with the digits that touch it. -/
theorem wordAt_eq (stands : NameStands source t stem rest) {character : Nat}
    (low : ((Document.ofText source).span t.pos (runeCount t.literal)).start.character ≤ character)
    (up : character ≤ ((Document.ofText source).span t.pos (runeCount t.literal)).stop.character) :
    (Document.ofText source).wordAt (t.pos.line - 1 : Nat) character =
      some (digitsBefore source t ++ t.literal,
        (Document.ofText source).wordRange (digitsBefore source t).length t) := by
  have word := stands.word
  have here := stands.lineRunes
  have run := stands.wordRun
  have low_bytes := stands.word_low
  have literal : Word t.literal :=
    ⟨ne_nil_of_isName stands.name, fun b member => word.2 b (List.mem_append_right _ member)⟩
  have digit_low : ∀ b ∈ digitsBefore source t, b < 0x80 := fun b member =>
    low_bytes b (List.mem_append_left _ member)
  have letter_low : ∀ b ∈ t.literal, b < 0x80 := fun b member =>
    low_bytes b (List.mem_append_right _ member)
  have range := Document.span_of_inLine (d := Document.ofText source) rfl stands.inLine literal
  have front : (units (lastLine stem ++ digitsBefore source t)).length =
      unitCount (runes (lastLine stem)) + (digitsBefore source t).length := by
    rw [(Seam.before_all_low digit_low _).units, List.length_append, units_of_all_low digit_low,
      unitCount_eq, units]
  have whole : unitCount (runes (lastLine stem) ++ runes (digitsBefore source t ++ t.literal)) =
      unitCount (runes (lastLine stem)) + (digitsBefore source t).length + t.literal.length := by
    have size := units_of_all_low low_bytes
    rw [units, ← unitCount_eq, List.length_append] at size
    rw [unitCount_append, size, Nat.add_assoc]
  rw [front, units_of_all_low letter_low] at range
  rw [range] at low up
  have found := Document.wordAt_along here run (Nat.le_trans (Nat.le_add_right _ _) low)
    (Nat.le_trans up (Nat.le_of_eq whole.symm))
  have start : unitCount (runes (lastLine stem)) + (digitsBefore source t).length -
      (digitsBefore source t).length = unitCount (runes (lastLine stem)) := Nat.add_sub_cancel _ _
  simp only [Document.wordRange, range, start]
  rw [found, ofRunes_of_all_low low_bytes, whole, Int.toNat_natCast]

end NameStands

namespace Editor
open Document

namespace Document
variable {text : Bytes}

theorem definition_is_named {q : Definition} (defined : q ∈ (ofText text).definitions) :
    isName q.name = true := by
  obtain ⟨t, member, ⟨⟨kind, literal⟩, -⟩⟩ :=
    statements_stand text _ (names_stand _ q defined)
  have named := (word_of_kind ((tokenize_faithful text).tokens t member)).1 kind
  rwa [literal] at named

theorem definition_of_digits {digits : Bytes} (all : digits.all isDigit = true)
    (nonempty : digits ≠ [])
    (name : Name) : definition? (ofText text).definitions (digits ++ name) = none := by
  refine List.find?_eq_none.mpr fun q defined same => ?_
  obtain ⟨b, more, rfl⟩ := List.exists_cons_of_ne_nil nonempty
  have named := definition_is_named defined
  rw [List.all_cons, Bool.and_eq_true] at all
  rw [eq_of_beq same, List.cons_append, isName, Bool.and_eq_true] at named
  have apart : ∀ n < 256, isDigit n.toUInt8 = true → ¬isNameStart n.toUInt8 = true := by
    decide +kernel
  have digit := apart b.toNat b.toNat_lt (by simpa using all.1)
  exact digit (by simpa using named.1)

end Document

/-- The editor finds an identifier from every place along it, with the digits in front of it that
    touch it; these are there only if a number ends where the identifier begins. Without them the
    first definition of a procedure is found from every place along its name, and with them none
    is. The name of every call is such an identifier. -/
theorem identifiers_are_words_behind_their_digits {text : Bytes}
    (legal : (tokenize text).errors = []) :
    (∀ t ∈ (tokenize text).tokens, t.kind = .identifier →
      (digitsBefore text t ≠ [] ↔
        ∃ u ∈ (tokenize text).tokens, u.kind = .number ∧ u.item.finish = t.pos.offset) ∧
      ∀ character : Nat,
        ((ofText text).span t.pos (runeCount t.literal)).start.character ≤ character →
        character ≤ ((ofText text).span t.pos (runeCount t.literal)).stop.character →
        (ofText text).wordAt (t.pos.line - 1 : Nat) character =
          some (digitsBefore text t ++ t.literal,
            (ofText text).wordRange (digitsBefore text t).length t) ∧
        (ofText text).definitionAt? (t.pos.line - 1 : Nat) character =
          if digitsBefore text t = [] then
            (definition? (ofText text).definitions t.literal).map fun q =>
              (ofText text).span q.namePos (runeCount q.name)
          else none) ∧
    ∀ p, parse text = .ok p → ∀ node name, p.HasNode node → node.target? = some name →
      ∃ t ∈ (tokenize text).tokens, t.kind = .identifier ∧ t.literal = name ∧
        (t.pos = node.pos ∨ ∃ start count, node = .stmt (.loopCall start count name)) := by
  refine ⟨?_, ?_⟩
  · intro t member kind
    obtain ⟨stem, rest, stands⟩ := identifier_stands legal member kind
    refine ⟨⟨stands.number, ?_⟩, fun character low up => ?_⟩
    · rintro ⟨u, listed, number, touches⟩
      exact digitsBefore_of_number listed number touches
    have found := stands.wordAt_eq low up
    refine ⟨found, ?_⟩
    rw [definitionAt?, found]
    split
    · rename_i undefined
      rw [undefined]
      cases first : definition? (ofText text).definitions t.literal <;> simp [first]
    · rename_i nonempty
      simp [definition_of_digits stands.digits nonempty]
  · intro p accepted node name lies calls
    obtain ⟨pos, listed, place⟩ := Node.target_lexeme calls
    obtain ⟨t, member, ⟨⟨kind, literal⟩, there⟩⟩ := lexemes_stand accepted _ (lies.stands listed)
    refine ⟨t, member, kind, literal, place.imp_left fun same => there _ same⟩

def aloneText : Bytes := utf8 "to f\nend\npu f"

def touchedText : Bytes := utf8 "to f\nend\nfd 1f"

def touchedName : Token := ⟨.identifier, utf8 "f", ⟨13, 3, 5⟩⟩

theorem identifiers_are_words_behind_their_digits_of_calls :
    ((tokenize aloneText).errors = [] ∧
      (ofText aloneText).wordAt 2 4 = some (utf8 "f", ⟨⟨2, 3⟩, ⟨2, 4⟩⟩) ∧
      (ofText aloneText).definitionAt? 2 4 = some ⟨⟨0, 3⟩, ⟨0, 4⟩⟩) ∧
    ((tokenize touchedText).errors = [] ∧ digitsBefore touchedText touchedName = utf8 "1" ∧
      ∃ u ∈ (tokenize touchedText).tokens, u.kind = .number ∧ u.item.finish = 13) := by
  obtain ⟨alone, name, reaches, within⟩ : (tokenize aloneText).errors = [] ∧
      (⟨.identifier, utf8 "f", ⟨12, 3, 4⟩⟩ : Token) ∈ (tokenize aloneText).tokens ∧
      ((ofText aloneText).span ⟨12, 3, 4⟩ (runeCount (utf8 "f"))).start.character ≤ 4 ∧
      4 ≤ ((ofText aloneText).span ⟨12, 3, 4⟩ (runeCount (utf8 "f"))).stop.character := by
    decide +kernel
  obtain ⟨touched, member, digits⟩ : (tokenize touchedText).errors = [] ∧
      touchedName ∈ (tokenize touchedText).tokens ∧
      digitsBefore touchedText touchedName = utf8 "1" := by decide +kernel
  obtain ⟨-, found⟩ := (identifiers_are_words_behind_their_digits alone).1 _ name rfl
  obtain ⟨word, definition⟩ := found 4 reaches within
  obtain ⟨number, -⟩ := (identifiers_are_words_behind_their_digits touched).1 _ member rfl
  refine ⟨⟨alone, word.trans ?_, definition.trans ?_⟩, touched, digits, ?_⟩
  · decide +kernel
  · decide +kernel
  · exact number.mp (by rw [digits]; decide)

/-- The editor does not find the name of a call that a number touches, nor where it is defined. -/
theorem name_behind_digits_missed :
    (¬∀ text, (tokenize text).errors = [] →
      ∀ t ∈ (tokenize text).tokens, t.kind = .identifier → ∀ character : Nat,
        ((ofText text).span t.pos (runeCount t.literal)).start.character ≤ character →
        character < ((ofText text).span t.pos (runeCount t.literal)).stop.character →
        (ofText text).wordAt (t.pos.line - 1 : Nat) character =
          some (t.literal, (ofText text).span t.pos (runeCount t.literal))) ∧
    ¬∀ text p, parse text = .ok p → ∀ node name, p.HasNode node → node.target? = some name →
      (definition? (ofText text).definitions name).isSome →
      ∀ t ∈ (tokenize text).tokens, t.kind = .identifier → t.literal = name → t.pos = node.pos →
      ∀ character : Nat,
        ((ofText text).span t.pos (runeCount t.literal)).start.character ≤ character →
        character < ((ofText text).span t.pos (runeCount t.literal)).stop.character →
        ((ofText text).definitionAt? (t.pos.line - 1 : Nat) character).isSome := by
  obtain ⟨legal, member, reaches, within, elsewhere⟩ : (tokenize touchedText).errors = [] ∧
      touchedName ∈ (tokenize touchedText).tokens ∧
      ((ofText touchedText).span touchedName.pos
        (runeCount touchedName.literal)).start.character ≤ 4 ∧
      4 < ((ofText touchedText).span touchedName.pos
        (runeCount touchedName.literal)).stop.character ∧
      (ofText touchedText).wordAt (touchedName.pos.line - 1 : Nat) 4 ≠ some (touchedName.literal,
        (ofText touchedText).span touchedName.pos (runeCount touchedName.literal)) := by
    decide +kernel
  obtain ⟨⟨p, accepted, call⟩, defined, missed⟩ :
      (∃ p, parse touchedText = .ok p ∧
        .stmt (.call touchedName.pos touchedName.literal []) ∈ nodesOf p.statements) ∧
      (definition? (ofText touchedText).definitions touchedName.literal).isSome ∧
      ¬((ofText touchedText).definitionAt? (touchedName.pos.line - 1 : Nat) 4).isSome := by
    decide +kernel
  constructor
  · intro all
    exact elsewhere (all touchedText legal touchedName member rfl 4 reaches within)
  · intro all
    exact missed (all touchedText p accepted _ _ (.inl call) rfl defined touchedName member rfl rfl
      rfl 4 reaches within)

end Editor
end TurtleLogo
