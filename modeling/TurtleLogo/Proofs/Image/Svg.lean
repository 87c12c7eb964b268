import TurtleLogo.Image
import TurtleLogo.Proofs.Text.Bytes

/-!
Drawings read back. What a drawing is written as can be read, number by number and line by line, and
there is nothing else that is read as the same drawing: every integer has one spelling, and the text
behind it never goes on with a digit.
-/
namespace TurtleLogo
open Text

def behind? (start text : Bytes) : Option Bytes :=
  if start.isPrefixOf text then some (text.drop start.length) else none

def natural? (text : Bytes) : Option (Nat × Bytes) :=
  if decimal (natOfDigits (text.takeWhile isDigit)) = text.takeWhile isDigit then
    some (natOfDigits (text.takeWhile isDigit), text.dropWhile isDigit)
  else none

/-- A sign stands in front of a number that is not zero. -/
def integer? : Bytes → Option (Int × Bytes)
  | [] => none
  | b :: text =>
    if b = byte '-' then
      match natural? text with
      | some (n + 1, rest) => some (.negSucc n, rest)
      | _ => none
    else (natural? (b :: text)).map fun (n, rest) => (.ofNat n, rest)

def integerBehind? (start text : Bytes) : Option (Int × Bytes) := (behind? start text).bind integer?

def Segment.read? (text : Bytes) : Option (Segment × Bytes) :=
  (integerBehind? (utf8 "<line x1=\"") text).bind fun (x1, text) =>
    (integerBehind? (utf8 "\" y1=\"") text).bind fun (y1, text) =>
      (integerBehind? (utf8 "\" x2=\"") text).bind fun (x2, text) =>
        (integerBehind? (utf8 "\" y2=\"") text).bind fun (y2, text) =>
          (behind? (utf8 "\" stroke=\"black\" />") text).map fun text => (⟨x1, y1, x2, y2⟩, text)

def segments? : Nat → Bytes → Option (List Segment)
  | 0, _ => none
  | n + 1, text =>
    if text = utf8 "</svg>" then some []
    else (Segment.read? text).bind fun (s, rest) => (segments? n rest).map (s :: ·)

def Image.read? (text : Bytes) : Option Image :=
  (integerBehind? (utf8 "<svg viewBox=\"0 0 ") text).bind fun (width, text) =>
    (integerBehind? [space] text).bind fun (height, text) =>
      (behind? (utf8 "\" xmlns=\"http://www.w3.org/2000/svg\">") text).bind fun text =>
        (segments? text.length text).map (⟨width, height, ·⟩)

theorem behind_eq_some_iff {start text rest : Bytes} :
    behind? start text = some rest ↔ text = start ++ rest := by
  unfold behind?
  constructor
  · intro read
    split at read
    · rename_i begins
      obtain ⟨more, rfl⟩ := List.isPrefixOf_iff_prefix.mp begins
      rw [List.drop_left] at read
      rw [Option.some.inj read]
    · cases read
  · rintro rfl
    rw [if_pos (List.isPrefixOf_iff_prefix.mpr (List.prefix_append start rest)), List.drop_left]

def Digitless (text : Bytes) : Prop := ∀ b ∈ text.head?, isDigit b = false

theorem takeWhile_digits {digits rest : Bytes} (all : ∀ b ∈ digits, isDigit b = true)
    (stop : Digitless rest) :
    (digits ++ rest).takeWhile isDigit = digits ∧ (digits ++ rest).dropWhile isDigit = rest := by
  rw [List.takeWhile_append_of_pos all, List.dropWhile_append_of_pos all]
  cases rest with
  | nil => simp
  | cons b rest =>
    have last : ¬isDigit b = true := by simp [stop b rfl]
    rw [List.takeWhile_cons_of_neg last, List.dropWhile_cons_of_neg last, List.append_nil]
    exact ⟨rfl, rfl⟩

theorem natural_eq_some_iff {text rest : Bytes} {n : Nat} :
    natural? text = some (n, rest) ↔ text = decimal n ++ rest ∧ Digitless rest := by
  unfold natural?
  constructor
  · intro read
    split at read
    · rename_i spelled
      obtain ⟨rfl, rfl⟩ := Prod.mk.inj (Option.some.inj read)
      constructor
      · rw [spelled, List.takeWhile_append_dropWhile]
      · intro b ahead
        have stop := List.head?_dropWhile_not isDigit text
        rw [Option.mem_def.mp ahead] at stop
        simpa using stop
    · cases read
  · rintro ⟨rfl, stop⟩
    obtain ⟨digits, behind⟩ := takeWhile_digits (decimal_digits n) stop
    rw [digits, behind, natOfDigits_decimal, if_pos rfl]

theorem decimal_unsigned (n : Nat) : ∃ b digits, decimal n = b :: digits ∧ b ≠ byte '-' := by
  obtain ⟨b, digits, parts⟩ := List.exists_cons_of_ne_nil (decimal_ne_nil n)
  have digit := decimal_digits n b (by simp [parts])
  refine ⟨b, digits, parts, ?_⟩
  rintro rfl
  revert digit
  decide

theorem integer_eq_some_iff {text rest : Bytes} {i : Int} :
    integer? text = some (i, rest) ↔ text = signedDecimal i ++ rest ∧ Digitless rest := by
  constructor
  · intro read
    cases text with
    | nil => cases read
    | cons b text =>
      rw [integer?] at read
      split at read
      · rename_i sign
        split at read
        · rename_i n more number
          obtain ⟨rfl, rfl⟩ := Prod.mk.inj (Option.some.inj read)
          obtain ⟨spelled, stop⟩ := natural_eq_some_iff.mp number
          exact ⟨by rw [sign, spelled, signedDecimal, List.cons_append], stop⟩
        · cases read
      · obtain ⟨⟨n, more⟩, number, pair⟩ := Option.map_eq_some_iff.mp read
        obtain ⟨rfl, rfl⟩ := Prod.mk.inj pair
        exact natural_eq_some_iff.mp number
  · rintro ⟨rfl, stop⟩
    cases i with
    | ofNat n =>
      have number : natural? (decimal n ++ rest) = some (n, rest) :=
        natural_eq_some_iff.mpr ⟨rfl, stop⟩
      obtain ⟨b, digits, parts, unsigned⟩ := decimal_unsigned n
      rw [parts, List.cons_append] at number
      rw [signedDecimal, parts, List.cons_append, integer?, if_neg unsigned, number]
      rfl
    | negSucc n =>
      have number : natural? (decimal (n + 1) ++ rest) = some (n + 1, rest) :=
        natural_eq_some_iff.mpr ⟨rfl, stop⟩
      rw [signedDecimal, List.cons_append, integer?, if_pos rfl, number]

theorem integerBehind_eq_some_iff {start text rest : Bytes} {i : Int} :
    integerBehind? start text = some (i, rest) ↔
      text = start ++ (signedDecimal i ++ rest) ∧ Digitless rest := by
  unfold integerBehind?
  rw [Option.bind_eq_some_iff]
  constructor
  · rintro ⟨more, begins, number⟩
    obtain ⟨spelled, stop⟩ := integer_eq_some_iff.mp number
    rw [behind_eq_some_iff.mp begins, spelled]
    exact ⟨rfl, stop⟩
  · rintro ⟨rfl, stop⟩
    exact ⟨_, behind_eq_some_iff.mpr rfl, integer_eq_some_iff.mpr ⟨rfl, stop⟩⟩

theorem integerBehind_append (start : Bytes) (i : Int) {rest : Bytes} (stop : Digitless rest) :
    integerBehind? start (start ++ (signedDecimal i ++ rest)) = some (i, rest) :=
  integerBehind_eq_some_iff.mpr ⟨rfl, stop⟩

theorem digitless_append {front : Bytes} (first : front.head?.any (!isDigit ·) = true)
    (rest : Bytes) : Digitless (front ++ rest) := by
  cases front with
  | nil => cases first
  | cons b front =>
    intro c ahead
    obtain rfl := Option.some.inj ahead
    simpa using first

theorem segment_read_iff {text rest : Bytes} {s : Segment} :
    Segment.read? text = some (s, rest) ↔ text = s.svg ++ rest := by
  constructor
  · intro read
    unfold Segment.read? at read
    simp only [Option.bind_eq_some_iff, Option.map_eq_some_iff, Prod.exists, Prod.mk.injEq,
      integerBehind_eq_some_iff, behind_eq_some_iff] at read
    obtain ⟨x1, _, ⟨rfl, -⟩, y1, _, ⟨rfl, -⟩, x2, _, ⟨rfl, -⟩, y2, _, ⟨rfl, -⟩, _, rfl, rfl, rfl⟩ :=
      read
    simp only [Segment.svg, List.append_assoc]
  · rintro rfl
    simp only [Segment.svg, Segment.read?, List.append_assoc]
    rw [integerBehind_append, Option.bind_some, integerBehind_append, Option.bind_some,
      integerBehind_append, Option.bind_some, integerBehind_append, Option.bind_some,
      behind_eq_some_iff.mpr rfl]
    · rfl
    all_goals exact digitless_append rfl _

theorem segment_svg_length (s : Segment) : 0 < s.svg.length := by
  simp only [Segment.svg, List.length_append]
  have mark : 0 < (utf8 "<line x1=\"").length := by decide
  omega

theorem segment_svg_ne_end (s : Segment) (rest : Bytes) : s.svg ++ rest ≠ utf8 "</svg>" := by
  intro same
  have second := congrArg (·[1]?) same
  simp only [Segment.svg, List.append_assoc] at second
  cases second

theorem of_segments_eq_some {n : Nat} {text : Bytes} {ss : List Segment}
    (read : segments? n text = some ss) : text = ss.flatMap Segment.svg ++ utf8 "</svg>" := by
  induction n generalizing text ss with
  | zero => cases read
  | succ n ih =>
    rw [segments?] at read
    split at read
    · rename_i done
      obtain rfl := Option.some.inj read
      exact done
    · obtain ⟨⟨s, rest⟩, first, others⟩ := Option.bind_eq_some_iff.mp read
      obtain ⟨later, found, rfl⟩ := Option.map_eq_some_iff.mp others
      rw [segment_read_iff.mp first, ih found, List.flatMap_cons, List.append_assoc]

theorem segments_of_enough {n : Nat} {ss : List Segment} (fuel : ss.length < n) :
    segments? n (ss.flatMap Segment.svg ++ utf8 "</svg>") = some ss := by
  induction ss generalizing n with
  | nil =>
    obtain ⟨n, rfl⟩ : ∃ k, n = k + 1 := ⟨n - 1, by omega⟩
    rw [segments?, List.flatMap_nil, List.nil_append, if_pos rfl]
  | cons s ss ih =>
    rw [List.length_cons] at fuel
    obtain ⟨n, rfl⟩ : ∃ k, n = k + 1 := ⟨n - 1, by omega⟩
    rw [segments?, List.flatMap_cons, List.append_assoc, if_neg (segment_svg_ne_end s _),
      segment_read_iff.mpr rfl, Option.bind_some]
    exact congrArg (Option.map (s :: ·)) (ih (by omega))

theorem segments_length_le (ss : List Segment) : ss.length ≤ (ss.flatMap Segment.svg).length := by
  induction ss with
  | nil => exact Nat.le_refl _
  | cons s ss ih =>
    have first := segment_svg_length s
    rw [List.flatMap_cons, List.length_append, List.length_cons]
    omega

theorem image_read_iff {text : Bytes} {image : Image} :
    Image.read? text = some image ↔ text = image.svg := by
  constructor
  · intro read
    unfold Image.read? at read
    simp only [Option.bind_eq_some_iff, Option.map_eq_some_iff, Prod.exists,
      integerBehind_eq_some_iff, behind_eq_some_iff] at read
    obtain ⟨width, _, ⟨rfl, -⟩, height, _, ⟨rfl, -⟩, body, rfl, ss, lines, rfl⟩ := read
    rw [of_segments_eq_some lines]
    simp only [Image.svg, List.append_assoc]
  · rintro rfl
    have fuel : image.segments.length <
        (image.segments.flatMap Segment.svg ++ utf8 "</svg>").length := by
      have bound := segments_length_le image.segments
      have mark : 0 < (utf8 "</svg>").length := by decide
      rw [List.length_append]
      omega
    simp only [Image.svg, Image.read?, List.append_assoc]
    rw [integerBehind_append, Option.bind_some, integerBehind_append, Option.bind_some,
      behind_eq_some_iff.mpr rfl, Option.bind_some, segments_of_enough fuel]
    · rfl
    all_goals exact digitless_append rfl _

/-- A drawing is read back from what it is written as, and from nothing else, whatever its size and
    its lines. So two drawings are written alike only if they are one: of one size, with the same
    lines in the same order and as often. -/
theorem drawings_are_read_back :
    (∀ image : Image, Image.read? image.svg = some image) ∧
      (∀ text image, Image.read? text = some image → text = image.svg) ∧
      ∀ a b : Image, a.svg = b.svg ↔ a = b := by
  refine ⟨fun image => image_read_iff.mpr rfl, fun text image => image_read_iff.mp, ?_⟩
  intro a b
  constructor
  · intro same
    have first := image_read_iff.mpr (rfl : a.svg = a.svg)
    have second := image_read_iff.mpr (rfl : b.svg = b.svg)
    rw [same, second] at first
    exact (Option.some.inj first).symm
  · intro same
    rw [same]

def slanted : Segment := ⟨5, -3, 0, 10⟩

def blankDrawing : Bytes :=
  utf8 "<svg viewBox=\"0 0 -1 20\" xmlns=\"http://www.w3.org/2000/svg\"></svg>"

/-- A line that is drawn twice is told from one that is drawn once. -/
theorem drawings_are_read_back_of_repeated_line :
    Image.read? (Image.svg ⟨-1, 20, [slanted, slanted]⟩) = some ⟨-1, 20, [slanted, slanted]⟩ ∧
      (Image.read? blankDrawing = some ⟨-1, 20, []⟩ ∧ blankDrawing = Image.svg ⟨-1, 20, []⟩) ∧
      Image.svg ⟨-1, 20, [slanted, slanted]⟩ ≠ Image.svg ⟨-1, 20, [slanted]⟩ := by
  obtain ⟨back, only, alike⟩ := drawings_are_read_back
  have empty : Image.read? blankDrawing = some ⟨-1, 20, []⟩ := by decide +kernel
  refine ⟨back _, ⟨empty, only _ _ empty⟩, fun same => ?_⟩
  have one := (alike _ _).mp same
  cases one

end TurtleLogo
