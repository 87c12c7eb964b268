import TurtleLogo.Proofs.Text.Trim

/-!
Runes as they are written in bytes. The runes of a text are scalar values, and scalar values are
read back from the bytes that they are written in; so a list of them is a text of its own, whatever
bytes it was read from.
-/
namespace TurtleLogo.Text

def Scalar (r : Nat) : Prop := r ≤ 0x10FFFF ∧ ¬(0xD800 ≤ r ∧ r ≤ 0xDFFF)

theorem replacement_scalar : Scalar replacement := by
  unfold Scalar replacement
  omega

theorem sequence_scalar {text : Bytes} {d : Decoded} (found : sequence? text = some d) :
    Scalar d.rune := by
  unfold sequence? at found
  unfold Scalar
  split at found
  · simp at found
  rename_i a rest
  repeat' split at found
  all_goals simp only [reduceCtorEq, Option.some.injEq] at found
  all_goals
    subst found
    simp only [Bool.and_eq_true, decide_eq_true_eq, UInt8.lt_iff_toNat_lt, UInt8.le_iff_toNat_le,
      UInt8.reduceToNat, tailBits] at *
  · omega
  · omega
  · rename_i second
    obtain ⟨low, up, -, surrogate, -, -⟩ := second_bounds second.1
    omega
  · rename_i second
    obtain ⟨low, up, -, -, overlong, last⟩ := second_bounds second.1.1
    omega

theorem firstRune_scalar (text : Bytes) : Scalar (firstRune text).rune := by
  unfold firstRune
  cases found : sequence? text with
  | none => exact replacement_scalar
  | some d => exact sequence_scalar found

theorem runes_scalar (text : Bytes) : ∀ r ∈ runes text, Scalar r := by
  induction size : text.length using Nat.strongRecOn generalizing text with
  | ind k ih =>
    cases text with
    | nil => exact fun r member => absurd member List.not_mem_nil
    | cons b rest =>
      have width := firstRune_width b rest
      intro r member
      rw [runes, runePieces_cons, List.map_cons] at member
      rcases List.mem_cons.mp member with rfl | later
      · exact firstRune_scalar _
      · refine ih _ ?_ _ rfl r later
        rw [List.length_drop]
        omega

section
variable {a b c d : UInt8}

theorem sequence_of_two (low : 0xC2 ≤ a.toNat) (up : a.toNat ≤ 0xDF) (second : isTail b = true)
    (rest : Bytes) : sequence? (a :: b :: rest) = some ⟨a.toNat % 32 * 64 + tailBits b, 2⟩ := by
  have high : ¬a < 0x80 := by
    rw [UInt8.lt_iff_toNat_lt]
    exact Nat.not_lt.mpr (Nat.le_trans (by decide) low)
  have lead : (0xC2 ≤ a && a ≤ 0xDF) = true := by
    simpa [UInt8.le_iff_toNat_le] using ⟨low, up⟩
  rw [sequence?, if_neg high, if_pos lead]
  exact if_pos second

theorem sequence_of_three (low : 0xE0 ≤ a.toNat) (up : a.toNat ≤ 0xEF)
    (second : isSecond a b = true) (third : isTail c = true) (rest : Bytes) :
    sequence? (a :: b :: c :: rest) =
      some ⟨(a.toNat % 16 * 64 + tailBits b) * 64 + tailBits c, 3⟩ := by
  have high : ¬a < 0x80 := by
    rw [UInt8.lt_iff_toNat_lt]
    exact Nat.not_lt.mpr (Nat.le_trans (by decide) low)
  have longer : ¬(0xC2 ≤ a && a ≤ 0xDF) = true := by
    simp only [Bool.and_eq_true, decide_eq_true_eq, UInt8.le_iff_toNat_le, UInt8.reduceToNat]
    omega
  have lead : (0xE0 ≤ a && a ≤ 0xEF) = true := by
    simpa [UInt8.le_iff_toNat_le] using ⟨low, up⟩
  rw [sequence?, if_neg high, if_neg longer, if_pos lead]
  exact if_pos (by rw [second, third]; rfl)

theorem sequence_of_four (low : 0xF0 ≤ a.toNat) (up : a.toNat ≤ 0xF4)
    (second : isSecond a b = true) (third : isTail c = true) (fourth : isTail d = true)
    (rest : Bytes) :
    sequence? (a :: b :: c :: d :: rest) =
      some ⟨((a.toNat % 8 * 64 + tailBits b) * 64 + tailBits c) * 64 + tailBits d, 4⟩ := by
  have high : ¬a < 0x80 := by
    rw [UInt8.lt_iff_toNat_lt]
    exact Nat.not_lt.mpr (Nat.le_trans (by decide) low)
  have longer : ¬(0xC2 ≤ a && a ≤ 0xDF) = true := by
    simp only [Bool.and_eq_true, decide_eq_true_eq, UInt8.le_iff_toNat_le, UInt8.reduceToNat]
    omega
  have longest : ¬(0xE0 ≤ a && a ≤ 0xEF) = true := by
    simp only [Bool.and_eq_true, decide_eq_true_eq, UInt8.le_iff_toNat_le, UInt8.reduceToNat]
    omega
  have lead : (0xF0 ≤ a && a ≤ 0xF4) = true := by
    simpa [UInt8.le_iff_toNat_le] using ⟨low, up⟩
  rw [sequence?, if_neg high, if_neg longer, if_neg longest, if_pos lead]
  exact if_pos (by rw [second, third, fourth]; rfl)

/-- A second byte that makes the sequence no overlong form, no surrogate and nothing above the code
    points. -/
theorem isSecond_of_limits (tail : 0x80 ≤ b.toNat ∧ b.toNat ≤ 0xBF)
    (three : a.toNat = 0xE0 → 0xA0 ≤ b.toNat) (surrogate : a.toNat = 0xED → b.toNat ≤ 0x9F)
    (four : a.toNat = 0xF0 → 0x90 ≤ b.toNat) (last : a.toNat = 0xF4 → b.toNat ≤ 0x8F) :
    isSecond a b = true := by
  unfold isSecond secondBounds
  repeat' split
  all_goals
    simp only [Bool.and_eq_true, decide_eq_true_eq, beq_iff_eq, UInt8.le_iff_toNat_le,
      ← UInt8.toNat_inj, UInt8.reduceToNat] at *
    omega

end

theorem toUInt8_toNat {n : Nat} (small : n < 256) : n.toUInt8.toNat = n := by
  simp [Nat.mod_eq_of_lt small]

theorem isTail_of_bits {n : Nat} (small : n < 64) :
    isTail (0x80 + n).toUInt8 = true ∧ tailBits (0x80 + n).toUInt8 = n := by
  have value := toUInt8_toNat (n := 0x80 + n) (by omega)
  simp only [isTail, tailBits, Bool.and_eq_true, decide_eq_true_eq, UInt8.le_iff_toNat_le,
    UInt8.reduceToNat, value]
  omega

section
variable {r : Nat}

theorem encode_of_one (small : r < 0x80) : encode r = [r.toUInt8] := if_pos small

theorem encode_of_two (low : 0x80 ≤ r) (up : r < 0x800) :
    encode r = [(0xC0 + r / 64).toUInt8, (0x80 + r % 64).toUInt8] := by
  have one : ¬r < 0x80 := Nat.not_lt.mpr low
  exact (if_neg one).trans (if_pos up)

theorem Scalar.inside (scalar : Scalar r) :
    ¬(isSurrogate r || decide (0x10FFFF < r)) = true := by
  intro outside
  rcases Bool.or_eq_true_iff.mp outside with half | above
  · exact scalar.2 (by simpa [isSurrogate] using half)
  · exact absurd (of_decide_eq_true above) (Nat.not_lt.mpr scalar.1)

theorem encode_of_three (scalar : Scalar r) (low : 0x800 ≤ r) (up : r < 0x10000) :
    encode r = [(0xE0 + r / 4096).toUInt8, (0x80 + r / 64 % 64).toUInt8,
      (0x80 + r % 64).toUInt8] := by
  have one : ¬r < 0x80 := by omega
  have two : ¬r < 0x800 := by omega
  exact (if_neg one).trans ((if_neg two).trans ((if_neg scalar.inside).trans (if_pos up)))

theorem encode_of_four (scalar : Scalar r) (low : 0x10000 ≤ r) :
    encode r = [(0xF0 + r / 262144).toUInt8, (0x80 + r / 4096 % 64).toUInt8,
      (0x80 + r / 64 % 64).toUInt8, (0x80 + r % 64).toUInt8] := by
  have one : ¬r < 0x80 := by omega
  have two : ¬r < 0x800 := by omega
  have three : ¬r < 0x10000 := by omega
  exact (if_neg one).trans ((if_neg two).trans ((if_neg scalar.inside).trans (if_neg three)))

theorem bits_of_three (up : r < 0x10000) :
    ((0xE0 + r / 4096) % 16 * 64 + r / 64 % 64) * 64 + r % 64 = r := by omega

theorem bits_of_four (up : r ≤ 0x10FFFF) :
    (((0xF0 + r / 262144) % 8 * 64 + r / 4096 % 64) * 64 + r / 64 % 64) * 64 + r % 64 = r := by
  omega

theorem second_of_three (scalar : Scalar r) (low : 0x800 ≤ r) (up : r < 0x10000) :
    isSecond (0xE0 + r / 4096).toUInt8 (0x80 + r / 64 % 64).toUInt8 = true := by
  have whole := scalar.2
  have lead := toUInt8_toNat (n := 0xE0 + r / 4096) (by omega)
  have next := toUInt8_toNat (n := 0x80 + r / 64 % 64) (by omega)
  exact isSecond_of_limits (by omega) (by omega) (by omega) (by omega) (by omega)

theorem second_of_four (scalar : Scalar r) (low : 0x10000 ≤ r) :
    isSecond (0xF0 + r / 262144).toUInt8 (0x80 + r / 4096 % 64).toUInt8 = true := by
  have point := scalar.1
  have lead := toUInt8_toNat (n := 0xF0 + r / 262144) (by omega)
  have next := toUInt8_toNat (n := 0x80 + r / 4096 % 64) (by omega)
  exact isSecond_of_limits (by omega) (by omega) (by omega) (by omega) (by omega)

theorem sequence_encode (scalar : Scalar r) (rest : Bytes) :
    sequence? (encode r ++ rest) = some ⟨r, (encode r).length⟩ := by
  have sixth : ∀ n, n % 64 < 64 := fun n => Nat.mod_lt n (by decide)
  by_cases one : r < 0x80
  · have value := toUInt8_toNat (n := r) (by omega)
    have low : r.toUInt8 < 0x80 := by
      rw [UInt8.lt_iff_toNat_lt, value]
      exact one
    have read : sequence? (r.toUInt8 :: rest) = some ⟨r.toUInt8.toNat, 1⟩ := if_pos low
    rw [encode_of_one one, List.singleton_append, read, value]
    rfl
  by_cases two : r < 0x800
  · have lead := toUInt8_toNat (n := 0xC0 + r / 64) (by omega)
    have value : (0xC0 + r / 64) % 32 * 64 + r % 64 = r := by omega
    obtain ⟨tail, low⟩ := isTail_of_bits (sixth r)
    rw [encode_of_two (by omega) two]
    refine (sequence_of_two (by omega) (by omega) tail rest).trans ?_
    rw [lead, low, value]
    rfl
  by_cases three : r < 0x10000
  · have lead := toUInt8_toNat (n := 0xE0 + r / 4096) (by omega)
    have second := second_of_three scalar (by omega) three
    obtain ⟨-, mid⟩ := isTail_of_bits (sixth (r / 64))
    obtain ⟨tail, low⟩ := isTail_of_bits (sixth r)
    rw [encode_of_three scalar (by omega) three]
    refine (sequence_of_three (by omega) (by omega) second tail rest).trans ?_
    rw [lead, mid, low, bits_of_three three]
    rfl
  · have point := scalar.1
    have lead := toUInt8_toNat (n := 0xF0 + r / 262144) (by omega)
    have second := second_of_four scalar (by omega)
    obtain ⟨-, high⟩ := isTail_of_bits (sixth (r / 4096))
    obtain ⟨middle, mid⟩ := isTail_of_bits (sixth (r / 64))
    obtain ⟨tail, low⟩ := isTail_of_bits (sixth r)
    rw [encode_of_four scalar (by omega)]
    refine (sequence_of_four (by omega) (by omega) second middle tail rest).trans ?_
    rw [lead, high, mid, low, bits_of_four point]
    rfl

end

theorem encode_of_sequence {text : Bytes} {d : Decoded} (found : sequence? text = some d) :
    encode d.rune = text.take d.width := by
  have scalar := sequence_scalar found
  have byte : ∀ {n : Nat} {b : UInt8}, n = b.toNat → n.toUInt8 = b := by
    rintro _ b rfl
    simp
  unfold sequence? at found
  split at found
  · simp at found
  rename_i a rest
  repeat' split at found
  all_goals simp only [reduceCtorEq, Option.some.injEq] at found
  all_goals
    subst found
    simp only [Bool.and_eq_true, isTail, decide_eq_true_eq, UInt8.lt_iff_toNat_lt,
      UInt8.le_iff_toNat_le, UInt8.reduceToNat, tailBits, List.take_succ_cons, List.take_zero] at *
  · rw [encode_of_one ‹_›, byte rfl]
  · rename_i b _ _ _ _
    rw [encode_of_two (by omega) (by omega), byte (b := a) (by omega), byte (b := b) (by omega)]
  · rename_i b c _ _ _ _ second
    obtain ⟨low, up, overlong, -⟩ := second_bounds second.1
    rw [encode_of_three scalar (by omega) (by omega), byte (b := a) (by omega),
      byte (b := b) (by omega), byte (b := c) (by omega)]
  · rename_i b c d _ _ _ _ _ second
    obtain ⟨low, up, -, -, overlong, -⟩ := second_bounds second.1.1
    rw [encode_of_four scalar (by omega), byte (b := a) (by omega), byte (b := b) (by omega),
      byte (b := c) (by omega), byte (b := d) (by omega)]

/-- Every rune but the replacement rune is written in its own bytes. -/
theorem bytes_of_rune {text : Bytes} {piece : Rune × Bytes} (member : piece ∈ runePieces text)
    (read : piece.1 ≠ replacement) : piece.2 = encode piece.1 := by
  induction size : text.length using Nat.strongRecOn generalizing text with
  | ind k ih =>
    cases text with
    | nil => exact absurd member List.not_mem_nil
    | cons b rest =>
      have width := firstRune_width b rest
      rw [runePieces_cons] at member
      rcases List.mem_cons.mp member with rfl | later
      · unfold firstRune at read ⊢
        cases found : sequence? (b :: rest) with
        | none => exact absurd (by rw [found]; rfl) read
        | some d => exact (encode_of_sequence found).symm
      · refine ih _ ?_ later rfl
        rw [List.length_drop]
        omega

theorem encode_ne_nil (r : Rune) : encode r ≠ [] := by
  unfold encode
  repeat' split
  all_goals exact List.cons_ne_nil _ _

theorem runePieces_encode {r : Rune} (scalar : Scalar r) (rest : Bytes) :
    runePieces (encode r ++ rest) = (r, encode r) :: runePieces rest := by
  have first : firstRune (encode r ++ rest) = ⟨r, (encode r).length⟩ := by
    rw [firstRune, sequence_encode scalar]
    rfl
  obtain ⟨b, more, bytes⟩ := List.exists_cons_of_ne_nil (encode_ne_nil r)
  rw [bytes] at first ⊢
  rw [List.cons_append] at first ⊢
  rw [runePieces_cons, first, ← List.cons_append, List.take_left, List.drop_left]

theorem runePieces_ofRunes {rs : List Rune} (scalars : ∀ r ∈ rs, Scalar r) :
    runePieces (ofRunes rs) = rs.map fun r => (r, encode r) := by
  induction rs with
  | nil => rfl
  | cons r rs ih =>
    have others := ih fun s member => scalars s (List.mem_cons_of_mem r member)
    rw [ofRunes, List.flatMap_cons, ← ofRunes, runePieces_encode (scalars r List.mem_cons_self),
      others, List.map_cons]

theorem runes_ofRunes {rs : List Rune} (scalars : ∀ r ∈ rs, Scalar r) :
    runes (ofRunes rs) = rs := by
  rw [runes, runePieces_ofRunes scalars, List.map_map]
  exact List.map_id rs

theorem trim_ofRunes {rs : List Rune} (scalars : ∀ r ∈ rs, Scalar r) :
    ∃ kept, kept ⊆ rs ∧ trim (ofRunes rs) = ofRunes kept := by
  have starts : trimStart (ofRunes rs) = ofRunes (rs.dropWhile isBlank) := by
    rw [trimStart, runePieces_ofRunes scalars, List.dropWhile_map, List.flatMap_map]
    rfl
  have later : rs.dropWhile isBlank ⊆ rs := (List.dropWhile_sublist _).subset
  refine ⟨((rs.dropWhile isBlank).reverse.dropWhile isBlank).reverse, ?_, ?_⟩
  · intro r member
    have inner := (List.dropWhile_sublist _).subset (List.mem_reverse.mp member)
    exact later (List.mem_reverse.mp inner)
  · rw [trim, starts, trimEnd, runePieces_ofRunes fun r member => scalars r (later member),
      ← List.map_reverse, List.dropWhile_map, ← List.map_reverse, List.flatMap_map]
    rfl

theorem runes_cons_low {b : UInt8} (low : b < 0x80) (rest : Bytes) :
    runes (b :: rest) = b.toNat :: runes rest := by
  rw [runes, runePieces_cons, firstRune_of_low low]
  rfl

section
variable {text : Bytes} (low : ∀ b ∈ text, b < 0x80)
include low

theorem runes_of_all_low : runes text = text.map UInt8.toNat := by
  induction text with
  | nil => rfl
  | cons b rest ih =>
    have others := ih fun c member => low c (List.mem_cons_of_mem b member)
    rw [runes_cons_low (low b List.mem_cons_self), others, List.map_cons]

theorem ofRunes_of_all_low : ofRunes (runes text) = text := by
  have alone : ∀ b ∈ text, encode b.toNat = [b] := by
    intro b member
    have small : b.toNat < 0x80 := UInt8.lt_iff_toNat_lt.mp (low b member)
    rw [encode_of_one small]
    simp
  rw [runes_of_all_low low, ofRunes, List.flatMap_map, List.flatMap_congr alone,
    List.flatMap_singleton']

end
end TurtleLogo.Text
