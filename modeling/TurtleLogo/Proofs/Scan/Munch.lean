import Mathlib.Data.List.Nodup
import TurtleLogo.Proofs.Program.Printer
import TurtleLogo.Proofs.Scan.Language

/-!
What scanning makes of a text. The pieces of a text are its longest matches, and between them the
runs of runes where no match begins. The tokens and errors are therefore slices of the text with
nothing but white space and comments between them, and they are all of it: a token is the longest
word of all rules at its place, and an error goes on until a word begins.
-/
namespace TurtleLogo

namespace Scan
open Text

/-- A run in front of a text in which no word begins: not at its first rune, as it is read with the
    text behind it, nor at any later one. -/
inductive Barren (rest : Bytes) : Bytes → Prop where
  | nil : Barren rest []
  | rune {run : Bytes} (nonempty : run ≠ [])
      (inside : (firstRune (run ++ rest)).width ≤ run.length)
      (unmatched : (longestMatch (run ++ rest)).width = 0)
      (more : Barren rest (run.drop (firstRune (run ++ rest)).width)) : Barren rest run

/-- How a text is cut: a longest match comes off, or a run where none begins and which goes on until
    one does. -/
inductive Cut : Bytes → List Piece → Prop where
  | nil : Cut [] []
  | word {word rest : Bytes} {kind : TokenKind} {ps : List Piece} (nonempty : word ≠ [])
      (longest : longestMatch (word ++ rest) = ⟨kind, word.length⟩) (later : Cut rest ps) :
      Cut (word ++ rest) (⟨kind, word⟩ :: ps)
  | run {run rest : Bytes} {ps : List Piece} (nonempty : run ≠ []) (barren : Barren rest run)
      (ends : rest = [] ∨ 0 < (longestMatch rest).width) (later : Cut rest ps) :
      Cut (run ++ rest) (⟨.illegal, run⟩ :: ps)

theorem rule_kinds : ∀ rule ∈ rules, rule.kind ≠ .illegal ∧ rule.kind ≠ .eof := by decide

theorem rule_of_word {word rest : Bytes} {kind : TokenKind} (nonempty : word ≠ [])
    (longest : longestMatch (word ++ rest) = ⟨kind, word.length⟩) :
    (rules.find? (·.accepts word)).map Rule.kind = some kind := by
  have found := @longestMatch_kind (word ++ rest) (by
    rw [longest]
    exact List.length_pos_iff.mpr nonempty)
  rwa [longest, List.take_left] at found

theorem word_kind {word rest : Bytes} {kind : TokenKind} (nonempty : word ≠ [])
    (longest : longestMatch (word ++ rest) = ⟨kind, word.length⟩) :
    kind ≠ .illegal ∧ kind ≠ .eof := by
  obtain ⟨rule, found, rfl⟩ := Option.map_eq_some_iff.mp (rule_of_word nonempty longest)
  exact rule_kinds rule (List.mem_of_find?_eq_some found)

/-- A rune without a match in front of a cut text joins the run behind it, if there is one. -/
theorem Cut.consIllegal {rune rest : Bytes} {ps : List Piece} (cut : Cut rest ps)
    (nonempty : rune ≠ []) (whole : (firstRune (rune ++ rest)).width = rune.length)
    (unmatched : (longestMatch (rune ++ rest)).width = 0) :
    Cut (rune ++ rest) (Scan.consIllegal rune ps) := by
  have alone : Barren rest rune := by
    apply Barren.rune nonempty (Nat.le_of_eq whole) unmatched
    rw [whole, List.drop_length]
    exact .nil
  cases cut with
  | nil => exact .run nonempty alone (.inl rfl) .nil
  | @word word rest kind ps filled longest later =>
    have legal := (word_kind filled longest).1
    have positive : 0 < (longestMatch (word ++ rest)).width := by
      rw [longest]
      exact List.length_pos_iff.mpr filled
    rw [Scan.consIllegal, if_neg (by simpa using legal)]
    exact .run nonempty alone (.inr positive) (.word filled longest later)
  | @run run rest ps filled barren ends later =>
    have longer : Barren rest (rune ++ run) := by
      apply Barren.rune
      · simp [nonempty]
      · rw [List.append_assoc, whole, List.length_append]
        omega
      · rw [List.append_assoc]
        exact unmatched
      · rw [List.append_assoc, whole, List.drop_left]
        exact barren
    have merged : Scan.consIllegal rune (⟨.illegal, run⟩ :: ps) =
        ⟨.illegal, rune ++ run⟩ :: ps := rfl
    rw [merged, ← List.append_assoc]
    exact .run (by simp [nonempty]) longer ends later

theorem Cut.longest {text : Bytes} {ps : List Piece} (positive : 0 < (longestMatch text).width)
    (later : Cut (text.drop (longestMatch text).width) ps) :
    Cut text (⟨(longestMatch text).kind, text.take (longestMatch text).width⟩ :: ps) := by
  have taken := List.length_take_of_le (longestMatch_width_le text)
  have parts := List.take_append_drop (longestMatch text).width text
  have same : longestMatch (text.take (longestMatch text).width ++
      text.drop (longestMatch text).width) =
        ⟨(longestMatch text).kind, (text.take (longestMatch text).width).length⟩ := by
    rw [parts, taken]
  have word := Cut.word (List.ne_nil_of_length_pos (taken.symm ▸ positive)) same later
  rwa [parts] at word

theorem cut_pieces (text : Bytes) : Cut text (pieces text) := by
  induction size : text.length using Nat.strongRecOn generalizing text with
  | ind n ih =>
    cases text with
    | nil => exact .nil
    | cons b rest =>
      have left : ∀ width, 0 < width →
          Cut ((b :: rest).drop width) (pieces ((b :: rest).drop width)) := by
        intro width positive
        apply ih _ _ _ rfl
        rw [List.length_drop, size]
        rw [List.length_cons] at size
        omega
      rw [pieces_cons]
      split
      · rename_i unmatched
        obtain ⟨positive, inside⟩ := firstRune_width b rest
        have taken := List.length_take_of_le inside
        have parts := List.take_append_drop (firstRune (b :: rest)).width (b :: rest)
        have filled := List.ne_nil_of_length_pos (taken.symm ▸ positive)
        have joined := (left _ positive).consIllegal filled (by rw [parts, taken]) (by rwa [parts])
        rwa [parts] at joined
      · rename_i some_width
        have positive := Nat.pos_of_ne_zero some_width
        exact .longest positive (left _ positive)

theorem Barren.no_match {rest run : Bytes} (barren : Barren rest run)
    {front back : List (Rune × Bytes)} (runes : runePieces run = front ++ back) (more : back ≠ []) :
    (longestMatch (back.flatMap Prod.snd ++ rest)).width = 0 := by
  induction barren generalizing front with
  | nil => simp [runePieces, runePiecesFrom, more] at runes
  | @rune run nonempty inside unmatched later ih =>
    cases front with
    | nil =>
      rw [List.nil_append] at runes
      rw [← runes, flatten_runePieces]
      exact unmatched
    | cons first front =>
      obtain ⟨b, tail, rfl⟩ := List.exists_cons_of_ne_nil nonempty
      -- the run alone has the same first rune as with the text behind it
      rw [← firstRune_of_inside inside] at ih
      rw [runePieces_cons, List.cons_append, List.cons.injEq] at runes
      exact ih runes.2

inductive Blanks : Bytes → Bytes → Prop where
  | done (text : Bytes) : Blanks text text
  | space {b : UInt8} {text rest : Bytes} (blank : isSpace b = true) (more : Blanks text rest) :
      Blanks (b :: text) rest
  | comment {text rest : Bytes} (more : Blanks (text.dropWhile (· != newline)) rest) :
      Blanks (byte ';' :: text) rest

theorem Blanks.trans {text mid rest : Bytes} (first : Blanks text mid) (second : Blanks mid rest) :
    Blanks text rest := by
  induction first with
  | done text => exact second
  | space blank more ih => exact .space blank (ih second)
  | comment more ih => exact .comment (ih second)

theorem blanks_of_spaces {word : Bytes} (all : word.all isSpace = true) (rest : Bytes) :
    Blanks (word ++ rest) rest := by
  induction word with
  | nil => exact .done rest
  | cons b word ih =>
    rw [List.all_cons, Bool.and_eq_true] at all
    exact .space all.1 (ih all.2)

theorem blank_rules (rule : Rule) (listed : rule ∈ rules) :
    (rule.kind = .whitespace → rule.accepts = isRun isSpace) ∧
      (rule.kind = .comment → rule.accepts = isComment) := by
  have order : rules = ⟨.whitespace, isRun isSpace⟩ :: ⟨.comment, isComment⟩ :: rules.drop 2 := rfl
  have others : ∀ rule ∈ rules.drop 2, rule.kind ≠ .whitespace ∧ rule.kind ≠ .comment := by decide
  rw [order, List.mem_cons, List.mem_cons] at listed
  rcases listed with rfl | rfl | later
  · exact ⟨fun _ => rfl, nofun⟩
  · exact ⟨nofun, fun _ => rfl⟩
  · obtain ⟨solid, code⟩ := others rule later
    exact ⟨fun blank => absurd blank solid, fun blank => absurd blank code⟩

theorem comment_of_word {word rest : Bytes} (nonempty : word ≠ [])
    (longest : longestMatch (word ++ rest) = ⟨.comment, word.length⟩) :
    ∃ line, word = byte ';' :: line ∧ (line ++ rest).dropWhile (· != newline) = rest := by
  obtain ⟨rule, found, same⟩ := Option.map_eq_some_iff.mp (rule_of_word nonempty longest)
  have accepted := List.find?_some found
  rw [(blank_rules rule (List.mem_of_find?_eq_some found)).2 same] at accepted
  cases word with
  | nil => exact absurd rfl nonempty
  | cons b line =>
    simp only [isComment, Bool.and_eq_true, beq_iff_eq] at accepted
    obtain ⟨rfl, -⟩ := accepted
    rw [List.cons_append, longestMatch_comment] at longest
    have width : run (· != newline) (line ++ rest) = line.length := by
      simpa using congrArg Match.width longest
    exact ⟨line, rfl, by rw [← drop_run, width, List.drop_left]⟩

theorem blanks_of_word {word rest : Bytes} {kind : TokenKind} (nonempty : word ≠ [])
    (longest : longestMatch (word ++ rest) = ⟨kind, word.length⟩)
    (blank : kind = .whitespace ∨ kind = .comment) : Blanks (word ++ rest) rest := by
  rcases blank with rfl | rfl
  · obtain ⟨rule, found, same⟩ := Option.map_eq_some_iff.mp (rule_of_word nonempty longest)
    have accepted := List.find?_some found
    rw [(blank_rules rule (List.mem_of_find?_eq_some found)).1 same, isRun,
      Bool.and_eq_true] at accepted
    exact blanks_of_spaces accepted.2 rest
  · obtain ⟨line, rfl, ends⟩ := comment_of_word nonempty longest
    rw [List.cons_append]
    apply Blanks.comment
    rw [ends]
    exact .done rest

end Scan

/-- A token or an error: where it begins and its text. -/
structure Item where
  offset : Nat
  text : Text.Bytes
  deriving DecidableEq, Repr

def Item.finish (i : Item) : Nat := i.offset + i.text.length

def Token.item (t : Token) : Item := ⟨t.pos.offset, t.literal⟩

def LexError.item (e : LexError) : Item := ⟨e.pos.offset, e.text⟩

def Lexed.items (l : Lexed) : List Item :=
  (l.tokens.map Token.item ++ l.errors.map LexError.item).mergeSort fun a b => a.offset ≤ b.offset

open Text Scan

/-- From an offset on the text consists of the items, one behind the other, and of blanks before,
    between and behind them. -/
def Spread (source : Bytes) : Nat → List Item → Prop
  | start, [] => Blanks (source.drop start) []
  | start, i :: rest =>
    start ≤ i.offset ∧ Blanks (source.drop start) (source.drop i.offset) ∧
      i.text ≠ [] ∧ i.text <+: source.drop i.offset ∧ Spread source i.finish rest

namespace Spread
variable {source : Bytes} {start : Nat} {items : List Item}

theorem blank {mid : Nat} (order : start ≤ mid)
    (blanks : Blanks (source.drop start) (source.drop mid)) (spread : Spread source mid items) :
    Spread source start items := by
  cases items with
  | nil => exact blanks.trans spread
  | cons i rest =>
    obtain ⟨later, between, others⟩ := spread
    exact ⟨Nat.le_trans order later, blanks.trans between, others⟩

theorem disjoint (spread : Spread source start items) :
    (∀ i ∈ items, start ≤ i.offset) ∧ items.Pairwise fun a b => a.finish ≤ b.offset := by
  induction items generalizing start with
  | nil => exact ⟨nofun, .nil⟩
  | cons i rest ih =>
    obtain ⟨order, -, -, -, later⟩ := spread
    obtain ⟨behind, apart⟩ := ih later
    refine ⟨?_, .cons behind apart⟩
    intro j member
    rcases List.mem_cons.mp member with rfl | tail
    · exact order
    · have := behind j tail
      unfold Item.finish at this
      omega

theorem nonempty (spread : Spread source start items) : ∀ i ∈ items, i.text ≠ [] := by
  induction items generalizing start with
  | nil => exact nofun
  | cons i rest ih =>
    obtain ⟨-, -, filled, -, later⟩ := spread
    intro j member
    rcases List.mem_cons.mp member with rfl | tail
    · exact filled
    · exact ih later j tail

theorem increasing (spread : Spread source start items) :
    items.Pairwise fun a b => a.offset < b.offset := by
  apply List.Pairwise.imp_of_mem _ spread.disjoint.2
  intro a b first _ apart
  have size := List.length_pos_iff.mpr (spread.nonempty a first)
  unfold Item.finish at apart
  omega

end Spread

def Token.Munched (source : Bytes) (t : Token) : Prop :=
  t.literal ≠ [] ∧ ∃ rest, source.drop t.pos.offset = t.literal ++ rest ∧
    longestMatch (t.literal ++ rest) = ⟨t.kind, t.literal.length⟩

/-- No word begins in the text of the error, but one does behind it, unless the source ends. -/
def LexError.Unmatched (source : Bytes) (e : LexError) : Prop :=
  e.text ≠ [] ∧ ∃ rest, source.drop e.pos.offset = e.text ++ rest ∧ Barren rest e.text ∧
    (rest = [] ∨ 0 < (longestMatch rest).width)

namespace Lexed

structure Faithful (source : Bytes) (start : Nat) (l : Lexed) : Prop where
  tokens : ∀ t ∈ l.tokens, t.Munched source
  errors : ∀ e ∈ l.errors, e.Unmatched source
  finish : l.finish.offset = source.length
  spread : ∃ items, items.Perm (l.tokens.map Token.item ++ l.errors.map LexError.item) ∧
    Spread source start items

theorem ofPieces_blank {kind : TokenKind} (blank : kind = .whitespace ∨ kind = .comment)
    (p : Position) (text : Bytes) (rest : List Piece) :
    ofPieces p (⟨kind, text⟩ :: rest) = ofPieces (p.after text) rest := by
  rcases blank with rfl | rfl <;> rfl

theorem ofPieces_token {kind : TokenKind} (solid : ¬(kind = .whitespace ∨ kind = .comment))
    (legal : kind ≠ .illegal) (p : Position) (text : Bytes) (rest : List Piece) :
    ofPieces p (⟨kind, text⟩ :: rest) =
      { ofPieces (p.after text) rest with
        tokens := ⟨kind, text, p⟩ :: (ofPieces (p.after text) rest).tokens } := by
  cases kind <;> first | rfl | simp at solid legal

theorem behind {source word rest : Bytes} {p : Position}
    (here : source.drop p.offset = word ++ rest) (bound : p.offset ≤ source.length) :
    source.drop (p.after word).offset = rest ∧ (p.after word).offset ≤ source.length := by
  have size := congrArg List.length here
  rw [List.length_drop, List.length_append] at size
  rw [Position.after_offset, ← List.drop_drop, here, List.drop_left]
  exact ⟨rfl, by omega⟩

theorem ofPieces_faithful {source text : Bytes} {ps : List Piece} (cut : Cut text ps) (p : Position)
    (here : source.drop p.offset = text) (bound : p.offset ≤ source.length) :
    (ofPieces p ps).Faithful source p.offset := by
  induction cut generalizing p with
  | nil =>
    refine ⟨nofun, nofun, ?_, [], .refl _, ?_⟩
    · have ended := List.drop_eq_nil_iff.mp here
      exact Nat.le_antisymm bound ended
    · rw [Spread, here]
      exact .done []
  | @word word rest kind ps nonempty longest later ih =>
    obtain ⟨next, inside⟩ := behind here bound
    have tail := ih (p.after word) next inside
    have order : p.offset ≤ (p.after word).offset := by
      rw [Position.after_offset]
      omega
    by_cases blank : kind = .whitespace ∨ kind = .comment
    · rw [ofPieces_blank blank]
      obtain ⟨items, same, spread⟩ := tail.spread
      have blanks := blanks_of_word nonempty longest blank
      rw [← here, ← next] at blanks
      exact ⟨tail.tokens, tail.errors, tail.finish, items, same, spread.blank order blanks⟩
    · rw [ofPieces_token blank (word_kind nonempty longest).1]
      obtain ⟨items, same, spread⟩ := tail.spread
      refine ⟨?_, tail.errors, tail.finish, ⟨p.offset, word⟩ :: items, same.cons _, ?_⟩
      · intro t member
        rcases List.mem_cons.mp member with rfl | other
        · exact ⟨nonempty, rest, here, longest⟩
        · exact tail.tokens t other
      · refine ⟨Nat.le_refl _, .done _, nonempty, ?_, ?_⟩
        · rw [here]
          exact List.prefix_append word rest
        · rw [Position.after_offset] at spread
          exact spread
  | @run run rest ps nonempty barren ends later ih =>
    obtain ⟨next, inside⟩ := behind here bound
    have tail := ih (p.after run) next inside
    obtain ⟨items, same, spread⟩ := tail.spread
    have split : ofPieces p (⟨.illegal, run⟩ :: ps) = { ofPieces (p.after run) ps with
        errors := ⟨p, run⟩ :: (ofPieces (p.after run) ps).errors } := rfl
    rw [split]
    refine ⟨tail.tokens, ?_, tail.finish, ⟨p.offset, run⟩ :: items, ?_, ?_⟩
    · intro e member
      rcases List.mem_cons.mp member with rfl | other
      · exact ⟨nonempty, rest, here, barren, ends⟩
      · exact tail.errors e other
    · exact (same.cons _).trans List.perm_middle.symm
    · refine ⟨Nat.le_refl _, .done _, nonempty, ?_, ?_⟩
      · rw [here]
        exact List.prefix_append run rest
      · rw [Position.after_offset] at spread
        exact spread

theorem Faithful.spread_items {source : Bytes} {l : Lexed} (faithful : l.Faithful source 0) :
    Spread source 0 l.items := by
  obtain ⟨items, same, spread⟩ := faithful.spread
  have increasing := spread.increasing
  have distinct : (items.map Item.offset).Nodup := by
    rw [List.Nodup, List.pairwise_map]
    exact increasing.imp Nat.ne_of_lt
  have perm : items.Perm l.items := same.trans (List.mergeSort_perm _ _).symm
  have sorted : l.items.Pairwise fun a b => a.offset ≤ b.offset := by
    have pairs := @List.pairwise_mergeSort Item (fun a b => a.offset ≤ b.offset)
      (by intro a b c; simp only [decide_eq_true_eq]; omega)
      (by intro a b; simp only [Bool.or_eq_true, decide_eq_true_eq]; omega)
    simpa only [Lexed.items, decide_eq_true_eq] using pairs _
  -- no two items begin at one offset, so there is one way to sort them
  have order : items = l.items := by
    apply List.Perm.eq_of_pairwise _ (increasing.imp Nat.le_of_lt) sorted perm
    intro a b first second below above
    exact List.inj_on_of_nodup_map distinct first (perm.mem_iff.mpr second)
      (Nat.le_antisymm below above)
  rw [← order]
  exact spread

end Lexed

theorem tokenize_faithful (source : Bytes) : (tokenize source).Faithful source 0 :=
  Lexed.ofPieces_faithful (cut_pieces source) Position.start rfl (Nat.zero_le _)

theorem make_spelled {source : Bytes} {t : Token} (member : t ∈ (tokenize source).tokens)
    (kind : t.kind = .make) : t.literal = utf8 "make" := by
  obtain ⟨nonempty, rest, -, longest⟩ := (tokenize_faithful source).tokens t member
  obtain ⟨rule, found, same⟩ := Option.map_eq_some_iff.mp (rule_of_word nonempty longest)
  have order : rules = rules.take 4 ++
      keywordRule (.make, ["make"]) :: rules.drop 5 := rfl
  have others : ∀ rule ∈ rules.take 4 ++ rules.drop 5, rule.kind ≠ .make := by decide
  have listed := List.mem_of_find?_eq_some found
  have accepted := List.find?_some found
  rw [order, List.mem_append, List.mem_cons] at listed
  rcases listed with early | rfl | late
  · exact absurd (same.trans kind) (others rule (List.mem_append_left _ early))
  · simp only [keywordRule, List.any_cons, List.any_nil, Bool.or_false, beq_iff_eq] at accepted
    exact accepted.symm
  · exact absurd (same.trans kind) (others rule (List.mem_append_right _ late))

theorem wordKind_of_keyword {name : Bytes} (reserved : name ∈ keywords) :
    (wordKind name).isIn Category.keyword = true := by
  have table : ∀ entry ∈ TokenKind.keywordTable, entry.1.isIn Category.keyword = true := by decide
  rw [mem_keywords] at reserved
  obtain ⟨entry, listed, spelled⟩ := List.mem_flatMap.mp reserved
  unfold wordKind
  cases found : TokenKind.keywordTable.find? fun entry => (entry.2.map utf8).contains name with
  | some other => exact table other (List.mem_of_find?_eq_some found)
  | none =>
    have absent := List.find?_eq_none.mp found entry listed
    rw [List.contains_iff_mem] at absent
    exact absurd spelled absent

theorem Token.Munched.of_name {source : Bytes} {t : Token} (munched : t.Munched source)
    (named : isName t.literal = true) :
    (t.kind.isIn Category.keyword = true ↔ t.literal ∈ keywords) ∧
      (t.literal ∉ keywords → t.kind = .identifier) := by
  obtain ⟨nonempty, rest, -, longest⟩ := munched
  have kind : t.kind = wordKind t.literal :=
    Option.some.inj ((rule_of_word nonempty longest).symm.trans (find_name named))
  have free : t.literal ∉ keywords → t.kind = .identifier := by
    intro absent
    rw [kind, wordKind_of_not_keyword absent]
  refine ⟨⟨?_, ?_⟩, free⟩
  · intro keyword
    by_contra absent
    rw [free absent] at keyword
    revert keyword
    decide
  · intro reserved
    rw [kind]
    exact wordKind_of_keyword reserved

theorem Token.Munched.greedy {source : Bytes} {t : Token} (munched : t.Munched source) :
    (rules.find? (·.accepts t.literal)).map Rule.kind = some t.kind ∧
      ∀ rule ∈ rules, ∀ word, rule.accepts word = true → word <+: source.drop t.pos.offset →
        word.length ≤ t.literal.length := by
  obtain ⟨nonempty, rest, here, longest⟩ := munched
  refine ⟨rule_of_word nonempty longest, ?_⟩
  intro rule listed word accepted begins
  rw [here] at begins
  have bound := word_le_longestMatch listed accepted begins
  rwa [longest] at bound

namespace LexError.Unmatched
variable {source : Bytes} {e : LexError}

theorem not_begins (unmatched : e.Unmatched source) {front back : List (Rune × Bytes)}
    (runes : runePieces e.text = front ++ back) (more : back ≠ []) :
    ¬Begins (source.drop (e.pos.offset + (front.flatMap Prod.snd).length)) := by
  obtain ⟨-, rest, here, barren, -⟩ := unmatched
  have text : e.text = front.flatMap Prod.snd ++ back.flatMap Prod.snd := by
    rw [← flatten_runePieces e.text, runes, List.flatMap_append]
  have no_match := barren.no_match runes more
  rw [begins_iff, ← List.drop_drop, here, text, List.append_assoc, List.drop_left, no_match]
  exact Nat.lt_irrefl 0

theorem ends (unmatched : e.Unmatched source) :
    e.item.finish = source.length ∨ Begins (source.drop e.item.finish) := by
  obtain ⟨nonempty, rest, here, -, ending⟩ := unmatched
  have behind : source.drop (e.pos.offset + e.text.length) = rest := by
    rw [← List.drop_drop, here, List.drop_left]
  have size := congrArg List.length here
  rw [List.length_drop, List.length_append] at size
  have filled := List.length_pos_iff.mpr nonempty
  rcases ending with rfl | positive
  · left
    simp only [LexError.item, Item.finish, List.length_nil] at size ⊢
    omega
  · right
    rw [begins_iff, LexError.item, Item.finish, behind]
    exact positive

theorem apart {d : LexError} (first : d.Unmatched source) (second : e.Unmatched source) :
    d.item.finish ≠ e.pos.offset := by
  intro adjacent
  have runes : runePieces e.text ≠ [] := by
    intro empty
    have text := flatten_runePieces e.text
    rw [empty] at text
    exact second.1 text.symm
  have never : ¬Begins (source.drop e.pos.offset) :=
    second.not_begins (List.nil_append (runePieces e.text)).symm runes
  obtain ⟨nonempty, rest, here, -⟩ := second
  rcases first.ends with ended | begins
  · have size := congrArg List.length here
    rw [List.length_drop, List.length_append] at size
    have filled := List.length_pos_iff.mpr nonempty
    omega
  · rw [adjacent] at begins
    exact never begins

end LexError.Unmatched

/-- The tokens and errors of a text are slices of it that do not overlap, with nothing but white
    space and comments around them, and the end of the text is the last token. A token is the
    longest word of all rules at its place, of the first kind that has it. No word begins at any
    rune of an error, which goes on until one does. -/
theorem tokenize_is_lossless_maximal_munch (source : Bytes) :
    (Spread source 0 (tokenize source).items ∧
      (tokenize source).items.Pairwise fun a b => a.finish ≤ b.offset) ∧
    (∃ last, (tokenize source).allTokens = (tokenize source).tokens ++ [last] ∧
      last.kind = .eof ∧ last.pos.offset = source.length ∧
      ∀ t ∈ (tokenize source).tokens, t.kind ≠ .eof) ∧
    (∀ t ∈ (tokenize source).tokens,
      (rules.find? (·.accepts t.literal)).map Rule.kind = some t.kind ∧
      (∀ rule ∈ rules, ∀ word, rule.accepts word = true → word <+: source.drop t.pos.offset →
        word.length ≤ t.literal.length) ∧
      (isName t.literal = true → (t.kind.isIn Category.keyword = true ↔ t.literal ∈ keywords) ∧
        (t.literal ∉ keywords → t.kind = .identifier))) ∧
    ∀ e ∈ (tokenize source).errors,
      (∀ front back, runePieces e.text = front ++ back → back ≠ [] →
        ¬Begins (source.drop (e.pos.offset + (front.flatMap Prod.snd).length))) ∧
      (e.item.finish = source.length ∨ Begins (source.drop e.item.finish)) ∧
      ∀ d ∈ (tokenize source).errors, d.item.finish ≠ e.pos.offset := by
  have faithful := tokenize_faithful source
  have spread := faithful.spread_items
  refine ⟨⟨spread, spread.disjoint.2⟩, ?_, ?_, ?_⟩
  · refine ⟨_, rfl, rfl, faithful.finish, ?_⟩
    intro t member
    obtain ⟨nonempty, rest, -, longest⟩ := faithful.tokens t member
    exact (word_kind nonempty longest).2
  · intro t member
    have munched := faithful.tokens t member
    obtain ⟨first, longest⟩ := munched.greedy
    exact ⟨first, longest, munched.of_name⟩
  · intro e member
    have unmatched := faithful.errors e member
    refine ⟨fun front back => unmatched.not_begins, unmatched.ends, ?_⟩
    intro d other
    exact (faithful.errors d other).apart unmatched

/-- Tokens without a gap: a number ends where a keyword begins, and a mark that is no token where
    another mark with it is one. -/
theorem tokenize_is_lossless_maximal_munch_of_neighbours :
    (Spread (utf8 "10fd!!=1.") 0 (tokenize (utf8 "10fd!!=1.")).items ∧
      (tokenize (utf8 "10fd!!=1.")).tokens.map Token.item =
        [⟨0, utf8 "10"⟩, ⟨2, utf8 "fd"⟩, ⟨5, utf8 "!="⟩, ⟨7, utf8 "1"⟩] ∧
      (tokenize (utf8 "10fd!!=1.")).errors.map LexError.item = [⟨4, utf8 "!"⟩, ⟨8, utf8 "."⟩]) ∧
    (∃ t ∈ (tokenize (utf8 "10fd!!=1.")).tokens, t.item = ⟨2, utf8 "fd"⟩ ∧
      t.kind.isIn Category.keyword = true ∧ t.literal ∈ keywords ∧
      ∀ rule ∈ rules, ∀ word, rule.accepts word = true → word <+: utf8 "fd!!=1." →
        word.length ≤ 2) ∧
    ∃ e ∈ (tokenize (utf8 "10fd!!=1.")).errors, e.item = ⟨4, utf8 "!"⟩ ∧
      ¬Begins (utf8 "!!=1.") ∧ Begins (utf8 "!=1.") := by
  obtain ⟨⟨spread, -⟩, -, greedy, unmatched⟩ :=
    tokenize_is_lossless_maximal_munch (utf8 "10fd!!=1.")
  obtain ⟨cut, word, mark⟩ :
      ((tokenize (utf8 "10fd!!=1.")).tokens.map Token.item =
          [⟨0, utf8 "10"⟩, ⟨2, utf8 "fd"⟩, ⟨5, utf8 "!="⟩, ⟨7, utf8 "1"⟩] ∧
        (tokenize (utf8 "10fd!!=1.")).errors.map LexError.item =
          [⟨4, utf8 "!"⟩, ⟨8, utf8 "."⟩]) ∧
      (⟨.forward, utf8 "fd", ⟨2, 1, 3⟩⟩ : Token) ∈ (tokenize (utf8 "10fd!!=1.")).tokens ∧
      (⟨⟨4, 1, 5⟩, utf8 "!"⟩ : LexError) ∈ (tokenize (utf8 "10fd!!=1.")).errors := by
    decide +kernel
  refine ⟨⟨spread, cut⟩, ?_, ?_⟩
  · obtain ⟨-, longest, named⟩ := greedy _ word
    have reserved := (named rfl).1.mp rfl
    exact ⟨_, word, rfl, rfl, reserved, longest⟩
  · obtain ⟨barren, ends, -⟩ := unmatched _ mark
    have begins := ends.resolve_left (by decide)
    exact ⟨_, mark, rfl, barren [] _ rfl (by decide), begins⟩

end TurtleLogo
