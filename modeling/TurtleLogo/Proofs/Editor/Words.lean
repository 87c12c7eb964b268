import TurtleLogo.Proofs.Editor.Ranges
import TurtleLogo.Proofs.Text.Encoded

/-!
The word that touches a cursor. Offsets count UTF-16 units and lines are read rune by rune, so an
offset is first taken to the rune that begins there; an offset inside a pair of surrogates goes to
the rune behind it. Wherever the cursor is along a word, at both its ends too, the same word is
found.
-/
namespace TurtleLogo

namespace Text
variable {front back rs : List Rune}

theorem unitWidth_pos (r : Rune) : 0 < unitWidth r := by
  unfold unitWidth
  split <;> decide

theorem unitCount_append (front back : List Rune) :
    unitCount (front ++ back) = unitCount front + unitCount back := by
  rw [unitCount_eq, unitCount_eq, unitCount_eq, List.flatMap_append, List.length_append]

theorem unitCount_cons (r : Rune) (rs : List Rune) :
    unitCount (r :: rs) = unitWidth r + unitCount rs := by
  rw [unitCount_eq, unitCount_eq, List.flatMap_cons, List.length_append, utf16_length]

theorem take_through (left mid right : List Rune) :
    (left ++ (mid ++ right)).take (left ++ mid).length = left ++ mid := by
  rw [← List.append_assoc, List.take_left]

theorem unitCount_take_mono (rs : List Rune) {i j : Nat} (ordered : i ≤ j) :
    unitCount (rs.take i) ≤ unitCount (rs.take j) := by
  have front : rs.take i = (rs.take j).take i := by rw [List.take_take, Nat.min_eq_left ordered]
  have parts := unitCount_append ((rs.take j).take i) ((rs.take j).drop i)
  rw [List.take_append_drop, ← front] at parts
  omega

theorem indexOfUnit_le (rs : List Rune) (units : Nat) : indexOfUnit rs units ≤ rs.length := by
  induction rs generalizing units with
  | nil => cases units <;> exact Nat.le_refl 0
  | cons r rs ih =>
    cases units with
    | zero => exact Nat.zero_le _
    | succ n =>
      have rest := ih (n + 1 - unitWidth r)
      have step : indexOfUnit (r :: rs) (n + 1) = indexOfUnit rs (n + 1 - unitWidth r) + 1 :=
        Nat.add_comm 1 _
      rw [step, List.length_cons]
      omega

theorem indexOfUnit_bounds (rs : List Rune) (units : Nat) :
    min units (unitCount rs) ≤ unitCount (rs.take (indexOfUnit rs units)) ∧
      ∀ i < indexOfUnit rs units, unitCount (rs.take i) < units := by
  induction rs generalizing units with
  | nil =>
    have start : indexOfUnit [] units = 0 := by cases units <;> rfl
    rw [start]
    exact ⟨Nat.min_le_right _ _, fun i below => absurd below (Nat.not_lt_zero i)⟩
  | cons r rs ih =>
    cases units with
    | zero => exact ⟨Nat.zero_le _, fun i below => absurd below (Nat.not_lt_zero i)⟩
    | succ n =>
      obtain ⟨reached, before⟩ := ih (n + 1 - unitWidth r)
      have wide := unitWidth_pos r
      have step : indexOfUnit (r :: rs) (n + 1) = indexOfUnit rs (n + 1 - unitWidth r) + 1 :=
        Nat.add_comm 1 _
      rw [step, List.take_succ_cons, unitCount_cons, unitCount_cons]
      refine ⟨by omega, fun i below => ?_⟩
      cases i with
      | zero => exact Nat.succ_pos n
      | succ i =>
        have shorter := before i (by omega)
        rw [List.take_succ_cons, unitCount_cons]
        omega

theorem unitCount_take_lt (rs : List Rune) {i j : Nat} (ordered : i < j) (inside : j ≤ rs.length) :
    unitCount (rs.take i) < unitCount (rs.take j) := by
  have next := unitCount_take_mono rs (Nat.succ_le_of_lt ordered)
  have here : i < rs.length := by omega
  have wide := unitWidth_pos rs[i]
  rw [List.take_succ_eq_append_getElem here, unitCount_append, unitCount_cons] at next
  omega

/-- The offset is between the two surrogates of a rune. -/
def InsidePair (rs : List Rune) (units : Nat) : Prop :=
  ∃ front r back, rs = front ++ r :: back ∧ unitCount front < units ∧
    units < unitCount (front ++ [r])

/-- Every other offset has all units before it in the runes before it; past the end it counts as
    the end. -/
theorem indexOfUnit_between {rs : List Rune} {units : Nat} (outside : ¬InsidePair rs units) :
    unitCount (rs.take (indexOfUnit rs units)) = min units (unitCount rs) := by
  obtain ⟨reached, before⟩ := indexOfUnit_bounds rs units
  have whole := unitCount_append (rs.take (indexOfUnit rs units)) (rs.drop (indexOfUnit rs units))
  rw [List.take_append_drop] at whole
  refine Nat.le_antisymm (Nat.le_min.mpr ⟨?_, by omega⟩) reached
  refine Nat.le_of_not_lt fun beyond => outside ?_
  cases index : indexOfUnit rs units with
  | zero =>
    rw [index] at beyond
    exact absurd beyond (Nat.not_lt_zero units)
  | succ k =>
    have shorter := before k (by omega)
    have inside : k < rs.length := by
      have bound := indexOfUnit_le rs units
      omega
    rw [index, List.take_succ_eq_append_getElem inside] at beyond
    refine ⟨rs.take k, rs[k], rs.drop (k + 1), ?_, shorter, beyond⟩
    rw [List.getElem_cons_drop, List.take_append_drop]

end Text

namespace Editor
open Text

theorem replacement_is_no_word : isWordRune replacement = false := by decide +kernel

theorem isWordAt_iff {rs : List Rune} {i : Nat} :
    isWordAt rs i = true ↔ ∃ r, rs[i]? = some r ∧ isWordRune r = true := by
  rw [isWordAt, Option.any_eq_true]

theorem touched_cases {rs : List Rune} {cursor i : Nat} (found : touched? rs cursor = some i) :
    isWordAt rs i = true ∧ (i = cursor ∨ i + 1 = cursor) := by
  unfold touched? at found
  split at found
  · rename_i here
    obtain rfl := Option.some.inj found
    exact ⟨here, .inl rfl⟩
  · split at found
    · rename_i before
      obtain rfl := Option.some.inj found
      simp only [Bool.and_eq_true, decide_eq_true_eq] at before
      exact ⟨before.2, .inr (Nat.sub_add_cancel before.1)⟩
    · contradiction

theorem getLast_take {rs : List Rune} {i : Nat} (inside : i < rs.length) :
    (rs.take (i + 1)).getLast? = rs[i]? := by
  rw [List.take_succ_eq_append_getElem inside, List.getLast?_concat,
    List.getElem?_eq_getElem inside]

theorem touched_isSome_iff {rs : List Rune} {cursor : Nat} (inside : cursor ≤ rs.length) :
    (touched? rs cursor).isSome ↔
      ∃ r, ((rs.take cursor).getLast? = some r ∨ (rs.drop cursor).head? = some r) ∧
        isWordRune r = true := by
  rw [List.head?_drop]
  constructor
  · intro touching
    obtain ⟨i, found⟩ := Option.isSome_iff_exists.mp touching
    obtain ⟨word, rfl | rfl⟩ := touched_cases found
    · obtain ⟨r, here, word⟩ := isWordAt_iff.mp word
      exact ⟨r, .inr here, word⟩
    · obtain ⟨r, here, word⟩ := isWordAt_iff.mp word
      exact ⟨r, .inl ((getLast_take inside).trans here), word⟩
  · rintro ⟨r, before | behind, word⟩
    · cases cursor with
      | zero => contradiction
      | succ i =>
        have last := isWordAt_iff.mpr ⟨r, (getLast_take inside).symm.trans before, word⟩
        unfold touched?
        split
        · rfl
        · rw [Nat.add_sub_cancel, last, if_pos (by simp)]
          rfl
    · rw [touched?, if_pos (isWordAt_iff.mpr ⟨r, behind, word⟩)]
      rfl

/-- A run of word runes that ends where other runes are, or the line. -/
structure WordRun (left mid right : List Rune) : Prop where
  nonempty : mid ≠ []
  word : ∀ r ∈ mid, isWordRune r = true
  before : ∀ r ∈ left.getLast?, isWordRune r = false
  behind : ∀ r ∈ right.head?, isWordRune r = false

namespace WordRun
variable {left mid right : List Rune}

theorem isWordAt_inside (run : WordRun left mid right) {i : Nat} (low : left.length ≤ i)
    (up : i < left.length + mid.length) : isWordAt (left ++ (mid ++ right)) i = true := by
  have inside : i - left.length < mid.length := by omega
  rw [isWordAt, List.getElem?_append_right low, List.getElem?_append_left inside,
    List.getElem?_eq_getElem inside]
  exact run.word _ (List.getElem_mem inside)

theorem isWordAt_behind (run : WordRun left mid right) :
    isWordAt (left ++ (mid ++ right)) (left.length + mid.length) = false := by
  rw [isWordAt, ← List.append_assoc, ← List.length_append,
    List.getElem?_append_right (Nat.le_refl _),
    Nat.sub_self, ← List.head?_eq_getElem?]
  cases next : right.head? with
  | none => rfl
  | some r => exact run.behind r next

theorem covers (run : WordRun left mid right) {i : Nat}
    (word : isWordAt (left ++ (mid ++ right)) i = true) (low : left.length ≤ i + 1)
    (up : i ≤ left.length + mid.length) : left.length ≤ i ∧ i < left.length + mid.length := by
  constructor
  · refine Nat.le_of_not_lt fun early => ?_
    obtain ⟨r, here, word⟩ := isWordAt_iff.mp word
    have last : left.getLast? = some r := by
      have size : left.length - 1 = i := by omega
      rw [List.getLast?_eq_getElem?, size, ← List.getElem?_append_left early, here]
    exact absurd (run.before r last) (by simp [word])
  · refine Nat.lt_of_le_of_ne up fun behind => ?_
    rw [behind, run.isWordAt_behind] at word
    contradiction

theorem touched (run : WordRun left mid right) {cursor : Nat} (low : left.length ≤ cursor)
    (up : cursor ≤ left.length + mid.length) :
    ∃ i, touched? (left ++ (mid ++ right)) cursor = some i ∧ left.length ≤ i ∧
      i < left.length + mid.length := by
  have nonempty := List.length_pos_of_ne_nil run.nonempty
  unfold touched?
  by_cases inside : cursor < left.length + mid.length
  · rw [if_pos (run.isWordAt_inside low inside)]
    exact ⟨cursor, rfl, low, inside⟩
  · obtain rfl : cursor = left.length + mid.length := by omega
    have last := run.isWordAt_inside (i := left.length + mid.length - 1) (by omega) (by omega)
    rw [run.isWordAt_behind, last, if_neg Bool.false_ne_true,
      if_pos (by simp only [Bool.and_true, decide_eq_true_eq]; omega)]
    exact ⟨_, rfl, by omega, by omega⟩

theorem takeWhile_behind (run : WordRun left mid right) : right.takeWhile isWordRune = [] := by
  cases right with
  | nil => rfl
  | cons r right => exact List.takeWhile_cons_of_neg (by simp [run.behind r rfl])

theorem takeWhile_before (run : WordRun left mid right) :
    left.reverse.takeWhile isWordRune = [] := by
  cases last : left.reverse with
  | nil => rfl
  | cons r rest =>
    have ends : left.getLast? = some r := by rw [← List.head?_reverse, last, List.head?_cons]
    exact List.takeWhile_cons_of_neg (by simp [run.before r ends])

theorem wordAround_eq (run : WordRun left mid right) (line : Nat) {i : Nat} (low : left.length ≤ i)
    (up : i < left.length + mid.length) :
    wordAround line (left ++ (mid ++ right)) i =
      (ofRunes mid, ⟨⟨line, unitCount left⟩, ⟨line, unitCount (left ++ mid)⟩⟩) := by
  obtain ⟨k, rfl⟩ := Nat.exists_eq_add_of_le low
  have inside : k ≤ mid.length := by omega
  have back : ((left ++ (mid ++ right)).take (left.length + k)).reverse.takeWhile isWordRune =
      (mid.take k).reverse := by
    have all : ∀ r ∈ (mid.take k).reverse, isWordRune r = true := fun r member =>
      run.word r (List.mem_of_mem_take (List.mem_reverse.mp member))
    rw [List.take_length_add_append, List.take_append_of_le_length inside, List.reverse_append,
      List.takeWhile_append_of_pos all, run.takeWhile_before, List.append_nil]
  have onward : ((left ++ (mid ++ right)).drop (left.length + k)).takeWhile isWordRune =
      mid.drop k := by
    have all : ∀ r ∈ mid.drop k, isWordRune r = true := fun r member =>
      run.word r (List.mem_of_mem_drop member)
    rw [List.drop_length_add_append, List.drop_append_of_le_length inside,
      List.takeWhile_append_of_pos all, run.takeWhile_behind, List.append_nil]
  have start : left.length + k - (mid.take k).reverse.length = left.length := by
    rw [List.length_reverse, List.length_take, Nat.min_eq_left inside, Nat.add_sub_cancel]
  have stop : left.length + k + (mid.drop k).length = (left ++ mid).length := by
    rw [List.length_drop, List.length_append]
    omega
  have before : (left ++ (mid ++ right)).take left.length = left := List.take_left
  simp only [wordAround, back, onward, start, stop, before, take_through, List.drop_left]

theorem exists_around {rs : List Rune} {i : Nat} (here : isWordAt rs i = true) :
    ∃ left mid right, rs = left ++ (mid ++ right) ∧ WordRun left mid right ∧ left.length ≤ i ∧
      i < left.length + mid.length := by
  obtain ⟨r, found, word⟩ := Option.any_eq_true _ _ |>.mp here
  obtain ⟨inside, rfl⟩ := List.getElem?_eq_some_iff.mp found
  let left := (rs.take i).rdropWhile isWordRune
  let tail := (rs.take i).rtakeWhile isWordRune
  let onward := (rs.drop i).takeWhile isWordRune
  have front : left ++ tail = rs.take i := List.rdropWhile_append_rtakeWhile
  have back : onward ++ (rs.drop i).dropWhile isWordRune = rs.drop i :=
    List.takeWhile_append_dropWhile
  have size : left.length + tail.length = i := by
    rw [← List.length_append, front, List.length_take, Nat.min_eq_left (Nat.le_of_lt inside)]
  have starts : 0 < onward.length := by
    simp only [onward, List.drop_eq_getElem_cons inside, List.takeWhile_cons_of_pos word]
    exact Nat.succ_pos _
  have length : (tail ++ onward).length = tail.length + onward.length := List.length_append
  refine ⟨left, tail ++ onward, (rs.drop i).dropWhile isWordRune, ?_, ⟨?_, ?_, ?_, ?_⟩, ?_, ?_⟩
  · rw [List.append_assoc, back, ← List.append_assoc, front, List.take_append_drop]
  · exact List.ne_nil_of_length_pos (by omega)
  · intro r member
    rcases List.mem_append.mp member with before | behind
    · exact List.mem_rtakeWhile_imp before
    · exact List.mem_takeWhile_imp behind
  · intro r last
    obtain ⟨nonempty, rfl⟩ := List.mem_getLast?_eq_getLast last
    exact Bool.eq_false_iff.mpr (List.rdropWhile_last_not isWordRune (rs.take i) nonempty)
  · intro r next
    have stop := List.head?_dropWhile_not isWordRune (rs.drop i)
    rw [next] at stop
    exact stop
  · omega
  · omega

end WordRun

namespace Document
variable {d : Document} {line : Int} {left mid right : List Rune}

theorem wordAt_along (here : d.lineRunes? line = some (left ++ (mid ++ right)))
    (run : WordRun left mid right) {character : Nat} (low : unitCount left ≤ character)
    (up : character ≤ unitCount (left ++ mid)) :
    d.wordAt line character = some (ofRunes mid,
      ⟨⟨line.toNat, unitCount left⟩, ⟨line.toNat, unitCount (left ++ mid)⟩⟩) := by
  obtain ⟨reached, before⟩ := indexOfUnit_bounds (left ++ (mid ++ right)) character
  have first : (left ++ (mid ++ right)).take left.length = left := List.take_left
  have total := unitCount_append left (mid ++ right)
  have fits : left.length ≤ indexOfUnit (left ++ (mid ++ right)) character := by
    refine Nat.le_of_not_lt fun early => ?_
    have fewer := unitCount_take_lt (left ++ (mid ++ right)) early (by simp)
    rw [first] at fewer
    omega
  have bound : indexOfUnit (left ++ (mid ++ right)) character ≤ left.length + mid.length := by
    refine Nat.le_of_not_lt fun late => ?_
    rw [← List.length_append] at late
    have short := before _ late
    rw [take_through] at short
    omega
  obtain ⟨i, touched, inside, ends⟩ := run.touched fits bound
  rw [wordAt, here, Option.bind_some, Int.toNat_natCast, touched, Option.map_some,
    run.wordAround_eq line.toNat inside ends]

theorem cutsOut_of_runes {text : Bytes} {line : Nat} (found : d.lines[line]? = some text)
    (parts : runes (withoutReturns text) = left ++ (mid ++ right))
    (read : ∀ r ∈ mid, r ≠ replacement) :
    d.CutsOut ⟨⟨line, unitCount left⟩, ⟨line, unitCount (left ++ mid)⟩⟩ (ofRunes mid) := by
  obtain ⟨returns, ends, cut⟩ := withoutReturns_split text
  obtain ⟨front, others, pieces, rfl, others_runes⟩ := List.map_eq_append_iff.mp parts
  obtain ⟨word, back, rfl, rfl, rfl⟩ := List.map_eq_append_iff.mp others_runes
  obtain ⟨front_pieces, others_pieces⟩ := runePieces_of_append pieces
  obtain ⟨word_pieces, back_pieces⟩ := runePieces_of_append others_pieces
  have bytes : ofRunes (word.map Prod.fst) = word.flatMap Prod.snd := by
    rw [ofRunes, List.flatMap_map]
    refine List.flatMap_congr fun piece member => ?_
    have listed : piece ∈ runePieces (withoutReturns text) := by
      rw [pieces]
      exact List.mem_append_right _ (List.mem_append_left _ member)
    exact (bytes_of_rune listed (read _ (List.mem_map_of_mem member))).symm
  have shown : withoutReturns text =
      front.flatMap Prod.snd ++ (word.flatMap Prod.snd ++ back.flatMap Prod.snd) := by
    rw [← flatten_runePieces (withoutReturns text), pieces, List.flatMap_append,
      List.flatMap_append]
  have inner : Seam (word.flatMap Prod.snd) (back.flatMap Prod.snd) := by
    rw [Seam, word_pieces, back_pieces, ← List.flatMap_append, others_pieces]
  have outer : Seam (front.flatMap Prod.snd)
      (word.flatMap Prod.snd ++ back.flatMap Prod.snd) := by
    rw [Seam, ← shown, pieces, front_pieces, ← List.flatMap_append, others_pieces]
  have front_units : unitCount (front.map Prod.fst) = (units (front.flatMap Prod.snd)).length := by
    rw [unitCount_eq, units, runes, front_pieces]
  have word_units : unitCount (word.map Prod.fst) = (units (word.flatMap Prod.snd)).length := by
    rw [unitCount_eq, units, runes, word_pieces]
  have line_bytes : text = front.flatMap Prod.snd ++
      (word.flatMap Prod.snd ++ (back.flatMap Prod.snd ++ returns)) := by
    rw [← List.append_assoc (word.flatMap _), ← List.append_assoc (front.flatMap _), ← shown]
    exact ends
  have all : units text = units (front.flatMap Prod.snd) ++
      (units (word.flatMap Prod.snd) ++ units (back.flatMap Prod.snd ++ returns)) := by
    rw [line_bytes, ← List.append_assoc (word.flatMap _), (outer.extend cut).units,
      List.append_assoc, (inner.extend cut).units]
  rw [bytes, unitCount_append, front_units, word_units]
  refine ⟨rfl, _, _, found.trans (congrArg some line_bytes), ?_, rfl, rfl, ?_⟩
  · rw [← line_bytes, all]
  · rw [← line_bytes, all, ← List.append_assoc, ← List.length_append, List.take_left,
      List.drop_left]

/-- The word and the runes of the line before it, in it and behind it. The range cuts the word out
    of the line, and from every offset in the range the word is found. -/
structure Selects (d : Document) (line : Int) (word : Bytes) (range : Range)
    (left mid right : List Rune) : Prop where
  parts : d.lineRunes? line = some (left ++ (mid ++ right))
  run : WordRun left mid right
  spelled : runes word = mid ∧ word ≠ []
  ends : range = ⟨⟨line.toNat, unitCount left⟩, ⟨line.toNat, unitCount (left ++ mid)⟩⟩
  cut : d.CutsOut range word
  again : ∀ other : Nat, range.start.character ≤ other → other ≤ range.stop.character →
    d.wordAt line other = some (word, range)

theorem selects_of_run (here : d.lineRunes? line = some (left ++ (mid ++ right)))
    (run : WordRun left mid right) :
    d.Selects line (ofRunes mid)
      ⟨⟨line.toNat, unitCount left⟩, ⟨line.toNat, unitCount (left ++ mid)⟩⟩ left mid right := by
  obtain ⟨text, found, shown⟩ : ∃ text, d.lines[line.toNat]? = some text ∧
      runes (withoutReturns text) = left ++ (mid ++ right) := by
    unfold lineRunes? at here
    split at here
    · contradiction
    · exact Option.map_eq_some_iff.mp here
  have read : ∀ r ∈ mid, r ≠ replacement := by
    rintro r member rfl
    exact absurd (run.word _ member) (by rw [replacement_is_no_word]; decide)
  have scalars : ∀ r ∈ mid, Scalar r := by
    intro r member
    refine runes_scalar (withoutReturns text) r ?_
    rw [shown]
    exact List.mem_append_right _ (List.mem_append_left _ member)
  have same := runes_ofRunes scalars
  have nonempty : ofRunes mid ≠ [] := by
    intro empty
    rw [empty] at same
    exact run.nonempty same.symm
  exact ⟨here, run, ⟨same, nonempty⟩, rfl, cutsOut_of_runes found shown read,
    fun other low up => wordAt_along here run low up⟩

end Document

open Document

/-- Unless the offset is inside a pair of surrogates it stands between two runes, and past the end
    of the line at its end. A word is found if one of the two is a word rune. It is the maximal run
    with these runes, and its range holds the cursor. -/
theorem words_are_stable_and_maximal (d : Document) (line : Int) (character : Nat) :
    (d.lineRunes? line = none → d.wordAt line character = none) ∧
    ∀ rs, d.lineRunes? line = some rs → ¬InsidePair rs character →
      ∃ front back, rs = front ++ back ∧ unitCount front = min character (unitCount rs) ∧
        ((d.wordAt line character).isSome ↔
          ∃ r, (front.getLast? = some r ∨ back.head? = some r) ∧ isWordRune r) ∧
        ∀ word range, d.wordAt line character = some (word, range) →
          ∃ left mid right, d.Selects line word range left mid right ∧
            (∀ r, back.head? = some r → isWordRune r →
              left.length ≤ front.length ∧ front.length < left.length + mid.length) ∧
            (∀ r, front.getLast? = some r → isWordRune r →
              left.length < front.length ∧ front.length ≤ left.length + mid.length) ∧
            range.start.character ≤ unitCount front ∧ unitCount front ≤ range.stop.character := by
  constructor
  · intro outside
    rw [wordAt, outside]
    rfl
  intro rs here apart
  have found : d.wordAt line character =
      (touched? rs (indexOfUnit rs character)).map (wordAround line.toNat rs) := by
    rw [wordAt, here]
    rfl
  have between := indexOfUnit_between apart
  have inside := indexOfUnit_le rs character
  generalize indexOfUnit rs character = cursor at found between inside
  have size : (rs.take cursor).length = cursor := by
    rw [List.length_take, Nat.min_eq_left inside]
  refine ⟨rs.take cursor, rs.drop cursor, (List.take_append_drop cursor rs).symm, between, ?_, ?_⟩
  · rw [found, Option.isSome_map]
    exact touched_isSome_iff inside
  intro word range result
  rw [found] at result
  obtain ⟨i, touched, around⟩ := Option.map_eq_some_iff.mp result
  obtain ⟨isWord, near⟩ := touched_cases touched
  obtain ⟨left, mid, right, rfl, run, low, up⟩ := WordRun.exists_around isWord
  rw [run.wordAround_eq line.toNat low up, Prod.mk.injEq] at around
  obtain ⟨rfl, rfl⟩ := around
  refine ⟨left, mid, right, selects_of_run here run, ?_, ?_, ?_, ?_⟩
  · intro r next word
    rw [List.head?_drop] at next
    rw [size]
    exact run.covers (isWordAt_iff.mpr ⟨r, next, word⟩) (by omega) (by omega)
  · intro r last word
    rw [size]
    cases cursor with
    | zero => contradiction
    | succ k =>
      rw [getLast_take inside] at last
      have covered := run.covers (isWordAt_iff.mpr ⟨r, last, word⟩) (by omega) (by omega)
      omega
  · have first : (left ++ (mid ++ right)).take left.length = left := List.take_left
    have ordered := unitCount_take_mono (left ++ (mid ++ right)) (i := left.length) (j := cursor)
      (by omega)
    rwa [first] at ordered
  · have ordered := unitCount_take_mono (left ++ (mid ++ right)) (i := cursor)
      (j := (left ++ mid).length) (by rw [List.length_append]; omega)
    rwa [take_through] at ordered

def pairedText : Bytes := utf8 "- 𝒳a"

def pairedWord : Range := ⟨⟨0, 2⟩, ⟨0, 5⟩⟩

set_option maxRecDepth 100000 in
/-- From past the end of the line the word is found, and from inside its pair once more. -/
theorem words_are_stable_and_maximal_of_pair :
    (ofText pairedText).lineRunes? 0 = some [0x2D, 0x20, 0x1D4B3, 0x61] ∧
    ¬InsidePair [0x2D, 0x20, 0x1D4B3, 0x61] 9 ∧
    (ofText pairedText).wordAt 0 9 = some (utf8 "𝒳a", pairedWord) ∧
    (ofText pairedText).CutsOut pairedWord (utf8 "𝒳a") ∧
    (ofText pairedText).wordAt 0 3 = some (utf8 "𝒳a", pairedWord) := by
  have line : (ofText pairedText).lineRunes? 0 = some [0x2D, 0x20, 0x1D4B3, 0x61] := rfl
  have apart : ¬InsidePair [0x2D, 0x20, 0x1D4B3, 0x61] 9 := by
    rintro ⟨front, r, back, parts, -, short⟩
    have size : unitCount (front ++ r :: back) = 5 := congrArg unitCount parts.symm
    rw [List.append_cons, unitCount_append] at size
    omega
  have found : (ofText pairedText).wordAt 0 9 = some (utf8 "𝒳a", pairedWord) := by
    decide +kernel
  obtain ⟨front, back, -, -, -, selected⟩ :=
    (words_are_stable_and_maximal (ofText pairedText) 0 9).2 _ line apart
  obtain ⟨left, mid, right, selects, -⟩ := selected _ _ found
  exact ⟨line, apart, found, selects.cut, selects.again 3 (by decide) (by decide)⟩

end Editor
end TurtleLogo
