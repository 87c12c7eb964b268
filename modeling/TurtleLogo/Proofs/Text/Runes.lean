import Mathlib.Data.List.Basic
import TurtleLogo.Text.Class

/-!
Runes and the bytes they are written in. Every rune takes at least one byte and no more than there
are, so the runes of a text partition it. A byte below 128 is a rune of its own, wherever it
stands, and what a rune is depends on its own bytes alone.
-/
namespace TurtleLogo.Text

theorem sequence_width {text : Bytes} {d : Decoded} (found : sequence? text = some d) :
    0 < d.width ∧ d.width ≤ text.length := by
  unfold sequence? at found
  split at found
  · simp at found
  · repeat' split at found
    all_goals simp only [reduceCtorEq, Option.some.injEq] at found
    all_goals
      subst found
      simp

theorem firstRune_width (b : UInt8) (rest : Bytes) :
    0 < (firstRune (b :: rest)).width ∧ (firstRune (b :: rest)).width ≤ (b :: rest).length := by
  unfold firstRune
  cases found : sequence? (b :: rest) with
  | none => simp
  | some d => exact sequence_width found

theorem firstRune_of_low {b : UInt8} (low : b < 0x80) (rest : Bytes) :
    firstRune (b :: rest) = ⟨b.toNat, 1⟩ := by
  simp [firstRune, sequence?, low]

theorem second_bounds {lead b : UInt8} (second : isSecond lead b = true) :
    0x80 ≤ b.toNat ∧ b.toNat ≤ 0xBF ∧
      (lead.toNat = 0xE0 → 0xA0 ≤ b.toNat) ∧ (lead.toNat = 0xED → b.toNat ≤ 0x9F) ∧
      (lead.toNat = 0xF0 → 0x90 ≤ b.toNat) ∧ (lead.toNat = 0xF4 → b.toNat ≤ 0x8F) := by
  unfold isSecond secondBounds at second
  repeat' split at second
  all_goals
    simp only [Bool.and_eq_true, decide_eq_true_eq, beq_iff_eq, UInt8.le_iff_toNat_le,
      ← UInt8.toNat_inj, UInt8.reduceToNat] at *
    omega

theorem sequence_high {b : UInt8} (high : ¬b < 0x80) {rest : Bytes} {d : Decoded}
    (found : sequence? (b :: rest) = some d) : (0x80 : Nat) ≤ d.rune := by
  unfold sequence? at found
  simp only [high, if_false] at found
  repeat' split at found
  all_goals simp only [reduceCtorEq, Option.some.injEq] at found
  all_goals
    subst found
    simp only [Bool.and_eq_true, decide_eq_true_eq, UInt8.le_iff_toNat_le, UInt8.reduceToNat,
      tailBits] at *
  · omega
  · rename_i second
    obtain ⟨low, up, overlong, -⟩ := second_bounds second.1
    omega
  · rename_i second
    obtain ⟨low, up, -, -, overlong, -⟩ := second_bounds second.1.1
    omega

theorem firstRune_of_high {b : UInt8} (high : ¬b < 0x80) (rest : Bytes) :
    (0x80 : Nat) ≤ (firstRune (b :: rest)).rune := by
  unfold firstRune
  cases found : sequence? (b :: rest) with
  | none => simp [replacement]
  | some d => exact sequence_high high found

theorem isTail_of_low {b : UInt8} (low : b < 0x80) : isTail b = false := by
  have high : ¬0x80 ≤ b := UInt8.not_le.mpr low
  simp [isTail, high]

theorem isSecond_of_low {b : UInt8} (low : b < 0x80) (lead : UInt8) : isSecond lead b = false := by
  have bound : (0x80 : UInt8) ≤ (secondBounds lead).1 := by
    unfold secondBounds
    repeat' split
    all_goals decide
  have below : ¬(secondBounds lead).1 ≤ b :=
    UInt8.not_le.mpr (UInt8.lt_of_lt_of_le low bound)
  simp [isSecond, below]

theorem firstRune_append {c : UInt8} (low : c < 0x80) (b : UInt8) (text rest : Bytes) :
    firstRune (b :: text ++ c :: rest) = firstRune (b :: text) := by
  have tail := isTail_of_low low
  have second := isSecond_of_low low
  unfold firstRune
  congr 1
  match text with
  | [] => rcases rest with _ | ⟨r, _ | ⟨s, more⟩⟩ <;> simp [sequence?, tail, second]
  | [x] => cases rest <;> simp [sequence?, tail]
  | [x, y] => simp [sequence?, tail]
  | x :: y :: z :: more => rfl

theorem runePiecesFrom_eq_drop (n : Nat) (text : Bytes) :
    runePiecesFrom n text = runePieces (text.drop n) := by
  induction n generalizing text with
  | zero => rfl
  | succ n ih =>
    cases text with
    | nil => simp [runePieces, runePiecesFrom]
    | cons b rest => rw [runePiecesFrom, List.drop_succ_cons, ih]

theorem runePieces_cons (b : UInt8) (rest : Bytes) :
    runePieces (b :: rest) =
      ((firstRune (b :: rest)).rune, (b :: rest).take (firstRune (b :: rest)).width) ::
        runePieces ((b :: rest).drop (firstRune (b :: rest)).width) := by
  obtain ⟨width, more⟩ : ∃ k, (firstRune (b :: rest)).width = k + 1 :=
    ⟨_, (Nat.succ_pred_eq_of_pos (firstRune_width b rest).1).symm⟩
  rw [runePieces, runePiecesFrom, runePiecesFrom_eq_drop, more, Nat.add_sub_cancel,
    List.drop_succ_cons]

theorem flatten_runePieces (text : Bytes) : (runePieces text).flatMap Prod.snd = text := by
  induction size : text.length using Nat.strongRecOn generalizing text with
  | ind k ih =>
    cases text with
    | nil => rfl
    | cons b rest =>
      have width := firstRune_width b rest
      have shorter : ((b :: rest).drop (firstRune (b :: rest)).width).length < k := by
        rw [List.length_drop]
        omega
      rw [runePieces_cons, List.flatMap_cons, ih _ shorter _ rfl, List.take_append_drop]

theorem mem_runePieces {text : Bytes} {piece : Rune × Bytes} (member : piece ∈ runePieces text) :
    ∃ b tail, piece.2 = b :: tail ∧ (b < 0x80 → piece = (b.toNat, [b])) ∧
      (¬b < 0x80 → (0x80 : Nat) ≤ piece.1) := by
  induction size : text.length using Nat.strongRecOn generalizing text with
  | ind k ih =>
    cases text with
    | nil => simp [runePieces, runePiecesFrom] at member
    | cons b rest =>
      have width := firstRune_width b rest
      rw [runePieces_cons] at member
      rcases List.mem_cons.mp member with rfl | later
      · obtain ⟨w, more⟩ : ∃ w, (firstRune (b :: rest)).width = w + 1 :=
          ⟨_, (Nat.succ_pred_eq_of_pos width.1).symm⟩
        refine ⟨b, rest.take w, by rw [more, List.take_succ_cons], ?_, ?_⟩
        · intro low
          simp [firstRune_of_low low]
        · intro high
          exact firstRune_of_high high rest
      · refine ih _ ?_ later rfl
        rw [List.length_drop]
        omega

theorem sequence_append {text : Bytes} {d : Decoded} (found : sequence? text = some d)
    (rest : Bytes) : sequence? (text ++ rest) = some d := by
  cases text with
  | nil => simp [sequence?] at found
  | cons a tail =>
    unfold sequence? at found ⊢
    dsimp only [List.cons_append] at found ⊢
    by_cases one : a < 0x80
    · rwa [if_pos one] at found ⊢
    rw [if_neg one] at found ⊢
    by_cases two : (0xC2 ≤ a && a ≤ 0xDF) = true
    · rw [if_pos two] at found ⊢
      rcases tail with _ | ⟨b, tail⟩
      · simp at found
      · exact found
    rw [if_neg two] at found ⊢
    by_cases three : (0xE0 ≤ a && a ≤ 0xEF) = true
    · rw [if_pos three] at found ⊢
      rcases tail with _ | ⟨b, _ | ⟨c, tail⟩⟩
      · simp at found
      · simp at found
      · exact found
    rw [if_neg three] at found ⊢
    by_cases four : (0xF0 ≤ a && a ≤ 0xF4) = true
    · rw [if_pos four] at found ⊢
      rcases tail with _ | ⟨b, _ | ⟨c, _ | ⟨d, tail⟩⟩⟩
      · simp at found
      · simp at found
      · simp at found
      · exact found
    rw [if_neg four] at found
    simp at found

theorem sequence_take {text : Bytes} {d : Decoded} (found : sequence? text = some d) :
    sequence? (text.take d.width) = some d := by
  unfold sequence? at found
  split at found
  · simp at found
  · rename_i a rest
    repeat' split at found
    all_goals simp only [reduceCtorEq, Option.some.injEq] at found
    all_goals
      subst found
      simp [sequence?, *]

/-- The first rune of a text depends on its own bytes alone. -/
theorem firstRune_of_inside {text rest : Bytes}
    (inside : (firstRune (text ++ rest)).width ≤ text.length) :
    firstRune text = firstRune (text ++ rest) := by
  unfold firstRune at inside ⊢
  cases found : sequence? (text ++ rest) with
  | some d =>
    have size : d.width ≤ text.length := by simpa [found] using inside
    have own := sequence_take found
    rw [List.take_append_of_le_length size] at own
    have whole := sequence_append own (text.drop d.width)
    rw [List.take_append_drop] at whole
    rw [whole]
  | none =>
    cases own : sequence? text with
    | none => rfl
    | some d => simp [sequence_append own rest] at found

end TurtleLogo.Text
