import TurtleLogo.Proofs.Editor.Ranges
import TurtleLogo.Proofs.Scan.Adjacent

/-!
What can be typed next. No two entries have one label: reserved words are spelled once in their
table, the scanner makes no identifier of one, and only an identifier names a procedure. So the
order of labels leaves no choice, and the list does not depend on the order in which procedures
were collected or on the way in which it was sorted.
-/
namespace TurtleLogo

namespace Text

theorem strict_of_sorted {texts : List Bytes} (order : texts.Pairwise fun a b => before b a = false)
    (distinct : texts.Nodup) : texts.Pairwise fun a b => before a b = true := by
  refine (order.and distinct).imp fun {a b} ⟨sorted, apart⟩ => ?_
  exact before_iff_lt.mpr (Std.lt_of_le_of_ne (before_eq_false_iff.mp sorted) apart)

theorem mergeSort_sorted {α : Type} (label : α → Bytes) (xs : List α) :
    (xs.mergeSort fun a b => !before (label b) (label a)).Pairwise
      fun a b => before (label b) (label a) = false := by
  refine (List.pairwise_mergeSort ?_ ?_ xs).imp fun {a b} sorted => by simpa using sorted
  · intro a b c first second
    simp only [Bool.not_eq_eq_eq_not, Bool.not_true, before_eq_false_iff] at first second ⊢
    exact List.le_trans first second
  · intro a b
    simp only [Bool.or_eq_true, Bool.not_eq_eq_eq_not, Bool.not_true, before_eq_false_iff]
    exact List.le_total _ _

end Text

open Text

theorem keywords_sorted : keywords.Pairwise fun a b => before b a = false := mergeSort_sorted id _

theorem keywords_nodup : keywords.Nodup := by
  have spelled : (TokenKind.keywordTable.flatMap fun entry => entry.2.map utf8).Nodup := by
    decide +kernel
  exact (List.mergeSort_perm _ _).nodup_iff.mpr spelled

namespace Editor

theorem name_not_keyword {text : Bytes} {name : Name} {p : Position}
    (stands : Lexeme.StandsIn ⟨.identifier, .text name, some p⟩ text) : name ∉ keywords := by
  obtain ⟨t, member, ⟨kind, literal⟩, -⟩ := stands
  have spelled : t.literal = name := literal
  have munched := (tokenize_faithful text).tokens t member
  have named := (word_of_kind munched).1 kind
  rw [← spelled]
  intro reserved
  have keyword := (munched.of_name named).1.mpr reserved
  have free : TokenKind.identifier.isIn Category.keyword = false := by decide
  rw [kind, free] at keyword
  contradiction

namespace Document
variable {d : Document} {firsts : List Definition}

def offered (firsts : List Definition) : List Completion :=
  keywords.map keywordCompletion ++ firsts.map procedureCompletion

theorem offered_labels (firsts : List Definition) :
    (offered firsts).map Completion.label = keywords ++ firsts.map Definition.name := by
  simp [offered, keywordCompletion, procedureCompletion, Function.comp_def]

theorem offered_distinct (distinct : (firsts.map Definition.name).Nodup)
    (free : ∀ q ∈ firsts, q.name ∉ keywords) :
    ((offered firsts).map Completion.label).Nodup := by
  rw [offered_labels]
  refine List.nodup_append.mpr ⟨keywords_nodup, distinct, ?_⟩
  rintro word reserved name named rfl
  obtain ⟨q, listed, rfl⟩ := List.mem_map.mp named
  exact free q listed reserved

/-- Entries with distinct labels can be sorted in one way. -/
theorem sorted_unique {xs items others : List Completion}
    (distinct : (xs.map Completion.label).Nodup) (items_perm : items.Perm xs)
    (others_perm : others.Perm xs)
    (items_sorted : items.Pairwise fun a b => before b.label a.label = false)
    (others_sorted : others.Pairwise fun a b => before b.label a.label = false) :
    items = others := by
  have strict : ∀ {ys : List Completion}, ys.Perm xs →
      (ys.Pairwise fun a b => before b.label a.label = false) →
      ys.Pairwise fun a b => before a.label b.label = true := by
    intro ys perm sorted
    refine List.pairwise_map.mp (strict_of_sorted (List.pairwise_map.mpr sorted) ?_)
    exact (perm.map _).nodup_iff.mpr distinct
  refine (items_perm.trans others_perm.symm).eq_of_pairwise ?_ (strict items_perm items_sorted)
    (strict others_perm others_sorted)
  intro a b _ _ first second
  exact absurd (before_iff_lt.mp second) (List.lt_asymm (before_iff_lt.mp first))

def firstDefinitions (d : Document) : List Definition :=
  d.definitions.filter fun q => definition? d.definitions q.name == some q

theorem firstDefinitions_firstOfEach (distinct : d.definitions.Nodup) :
    FirstOfEach Definition.name d.definitions d.firstDefinitions := by
  have found : ∀ q ∈ d.firstDefinitions, definition? d.definitions q.name = some q :=
    fun q member => eq_of_beq (List.mem_filter.mp member).2
  refine ⟨List.filter_sublist, ?_, found, ?_⟩
  · refine List.Nodup.map_on ?_ (distinct.filter _)
    intro a first b second same
    have one := found a first
    rw [same, found b second] at one
    exact (Option.some.inj one).symm
  · intro q member
    cases first : definition? d.definitions q.name with
    | none =>
      exact absurd (List.find?_eq_none.mp first q member) (by simp)
    | some b =>
      have named : b.name = q.name := by simpa using List.find?_some first
      refine ⟨b, List.mem_filter.mpr ⟨List.mem_of_find?_eq_some first, ?_⟩, named⟩
      rw [named, first]
      exact beq_self_eq_true _

theorem definitions_ordered (text : Bytes) :
    (ofText text).definitions.Pairwise (·.pos.offset < ·.pos.offset) := by
  cases compiled : parse text with
  | ok p =>
    have read : (ofText text).statements = p.statements := by
      simp [statements, ofText, compiled]
    rw [definitions, read]
    exact definitions_increasing compiled
  | error e =>
    have unread : (ofText text).statements = [] := by
      simp [statements, ofText, compiled]
    rw [definitions, unread]
    exact .nil

end Document

open Document

/-- Reserved words and procedures are offered in strict order, every name of a definition once and
    with its first definition. Collected and sorted in whatever way, the list is the same. -/
theorem completions_are_ordered_and_complete (text : Bytes) :
    ((ofText text).completions.Pairwise fun a b => before a.label b.label = true) ∧
    (∀ label, label ∈ (ofText text).completions.map Completion.label ↔
      label ∈ keywords ∨ ∃ q ∈ (ofText text).definitions, q.name = label) ∧
    (∀ q ∈ (ofText text).definitions, q.name ∉ keywords) ∧
    (∀ e, parse text = .error e → (ofText text).completions = keywords.map keywordCompletion) ∧
    (∀ p, parse text = .ok p → (ofText text).definitions = definitionsOf p.statements) ∧
    (ofText text).definitions.Pairwise (·.pos.offset < ·.pos.offset) ∧
    ∃ firsts, FirstOfEach Definition.name (ofText text).definitions firsts ∧
      (ofText text).completions.Perm (offered firsts) ∧
      ∀ collected : List Definition, collected.Perm firsts →
        ∀ items : List Completion, items.Perm (offered collected) →
          (items.Pairwise fun a b => before b.label a.label = false) →
          items = (ofText text).completions := by
  have ordered := definitions_ordered text
  have distinct : (ofText text).definitions.Nodup := ordered.imp fun {q r} less same => by
    rw [same] at less
    exact Nat.lt_irrefl _ less
  have firsts := firstDefinitions_firstOfEach distinct
  have free : ∀ q ∈ (ofText text).definitions, q.name ∉ keywords := fun q member =>
    name_not_keyword (statements_stand text _ (names_stand _ q member))
  have perm : (ofText text).completions.Perm (offered (ofText text).firstDefinitions) :=
    List.mergeSort_perm _ _
  have labels : ((offered (ofText text).firstDefinitions).map Completion.label).Nodup :=
    offered_distinct firsts.distinct fun q member => free q (firsts.sublist.subset member)
  have sorted : (ofText text).completions.Pairwise fun a b => before b.label a.label = false :=
    mergeSort_sorted Completion.label _
  refine ⟨?_, ?_, free, ?_, ?_, ordered, _, firsts, perm, ?_⟩
  · exact List.pairwise_map.mp
      (strict_of_sorted (List.pairwise_map.mpr sorted) ((perm.map _).nodup_iff.mpr labels))
  · intro label
    rw [(perm.map Completion.label).mem_iff, offered_labels, List.mem_append, List.mem_map]
    refine or_congr_right ⟨?_, ?_⟩
    · rintro ⟨q, first, rfl⟩
      exact ⟨q, firsts.sublist.subset first, rfl⟩
    · rintro ⟨q, defined, rfl⟩
      exact firsts.covers q defined
  · intro e broken
    have nothing : (ofText text).firstDefinitions = [] := by
      simp [firstDefinitions, definitions, statements, ofText, broken, definitionsOf]
    rw [nothing, offered, List.map_nil, List.append_nil] at labels perm
    exact sorted_unique labels perm (.refl _)
      sorted (List.pairwise_map.mpr keywords_sorted)
  · intro p accepted
    simp [definitions, statements, ofText, accepted]
  · intro collected anyOrder items items_perm items_sorted
    have same : items.Perm (offered (ofText text).firstDefinitions) :=
      items_perm.trans ((anyOrder.map procedureCompletion).append_left _)
    exact sorted_unique labels same perm items_sorted sorted

def redefinedText : Bytes := utf8 "to sq :n fd :n end to sq end to b to sq :x :y end end"

/-- The first signature is offered, and from the back the entries are sorted into the same list. -/
theorem completions_are_ordered_and_complete_of_redefined :
    (∃ p, parse redefinedText = .ok p ∧
      (ofText redefinedText).definitions = definitionsOf p.statements) ∧
    (ofText redefinedText).definitions.map Definition.name =
      [utf8 "sq", utf8 "sq", utf8 "b", utf8 "sq"] ∧
    (⟨utf8 "sq", .function, utf8 "sq :n"⟩ : Completion) ∈ (ofText redefinedText).completions ∧
    ((ofText redefinedText).completions.reverse.mergeSort fun a b => !before b.label a.label) =
      (ofText redefinedText).completions := by
  obtain ⟨-, -, -, -, read, -, firsts, first, perm, unique⟩ :=
    completions_are_ordered_and_complete redefinedText
  obtain ⟨⟨p, accepted⟩, names, sq⟩ :
      (∃ p, parse redefinedText = .ok p) ∧
      (ofText redefinedText).definitions.map Definition.name =
        [utf8 "sq", utf8 "sq", utf8 "b", utf8 "sq"] ∧
      (ofText redefinedText).definitions.find? (·.name == utf8 "sq") =
        some ⟨utf8 "sq", [utf8 "n"], ⟨0, 1, 1⟩, ⟨3, 1, 4⟩⟩ := by decide +kernel
  have back : ((ofText redefinedText).completions.reverse.mergeSort
      fun a b => !before b.label a.label).Perm (offered firsts) :=
    (List.mergeSort_perm _ _).trans ((List.reverse_perm _).trans perm)
  have offeredFirst : ⟨utf8 "sq", .function, utf8 "sq :n"⟩ ∈ offered firsts := by
    obtain ⟨q, listed, named⟩ := first.covers _ (List.mem_of_find?_eq_some sq)
    have found := first.first q listed
    rw [named, sq] at found
    obtain rfl := Option.some.inj found
    exact List.mem_append_right _ (List.mem_map_of_mem listed)
  exact ⟨⟨p, accepted, read p accepted⟩, names, perm.mem_iff.mpr offeredFirst,
    unique firsts (.refl _) _ back (mergeSort_sorted _ _)⟩

end Editor
end TurtleLogo
