import Mathlib.Data.List.Basic
import TurtleLogo.Text.Bytes

/-!
How texts are ordered, where they are cut, the numbers that digits write out, and lists of entries
by their keys.
-/
namespace TurtleLogo.Text

theorem before_iff_lt {a b : Bytes} : before a b = true ↔ a < b := by
  induction a generalizing b with
  | nil => cases b with
    | nil => simp [before]
    | cons y b => simp [before]
  | cons x a ih => cases b with
    | nil => simp [before]
    | cons y b => simp [before, ih, List.cons_lt_cons_iff]

theorem before_eq_false_iff {a b : Bytes} : before a b = false ↔ b ≤ a := by
  rw [← Bool.not_eq_true, before_iff_lt, List.not_lt]

theorem lookup_cons {α : Type} (key : Bytes) (entry : Bytes × α) (rest : List (Bytes × α)) :
    (entry :: rest).lookup key = if key = entry.1 then some entry.2 else rest.lookup key := by
  rw [List.lookup_cons]
  by_cases here : key = entry.1
  · rw [if_pos here, here, beq_self_eq_true]
  · rw [if_neg here, beq_false_of_ne here]

theorem cutAt_eq_some {sep : UInt8} {text left right : Bytes}
    (h : cutAt? sep text = some (left, right)) : text = left ++ sep :: right := by
  induction text generalizing left with
  | nil => simp [cutAt?] at h
  | cons b text ih =>
    rw [cutAt?] at h
    split at h
    · rename_i same
      obtain ⟨rfl, rfl⟩ := Prod.mk.inj (Option.some.inj h)
      simpa using same
    · obtain ⟨⟨l, r⟩, found, pair⟩ := Option.map_eq_some_iff.mp h
      obtain ⟨rfl, rfl⟩ := Prod.mk.inj pair
      rw [ih found, List.cons_append]

theorem cutAt_append {sep : UInt8} {left : Bytes} (absent : ∀ b ∈ left, b ≠ sep) (right : Bytes) :
    cutAt? sep (left ++ sep :: right) = some (left, right) := by
  induction left with
  | nil => simp [cutAt?]
  | cons b left ih =>
    have differs := absent b (by simp)
    simp [cutAt?, differs, ih fun c member => absent c (List.mem_cons_of_mem b member)]

theorem cutAt_eq_none {sep : UInt8} {text : Bytes} (absent : ∀ b ∈ text, b ≠ sep) :
    cutAt? sep text = none := by
  induction text with
  | nil => rfl
  | cons b text ih =>
    have differs := absent b (by simp)
    simp [cutAt?, differs, ih fun c member => absent c (List.mem_cons_of_mem b member)]

theorem digit_byte {c : Char} (digit : c.isDigit = true) :
    isDigit (byte c) = true ∧ digitValue (byte c) = c.toNat - 48 := by
  simp only [Char.isDigit, ge_iff_le, Bool.and_eq_true, decide_eq_true_eq,
    UInt32.le_iff_toNat_le] at digit
  have range : 48 ≤ c.toNat ∧ c.toNat ≤ 57 := digit
  have value : (byte c).toNat = c.toNat := by
    have wrapped : (byte c).toNat = c.toNat % 256 := rfl
    omega
  constructor
  · simp only [isDigit, Bool.and_eq_true, decide_eq_true_eq, UInt8.le_iff_toNat_le, value]
    exact range
  · rw [digitValue, value]

theorem decimal_digits (n : Nat) : ∀ b ∈ decimal n, isDigit b = true := by
  intro b member
  obtain ⟨c, listed, rfl⟩ := List.mem_map.mp member
  exact (digit_byte (Nat.isDigit_of_mem_toDigits (by decide) (by decide) listed)).1

theorem decimal_ne_nil (n : Nat) : decimal n ≠ [] := by
  rw [decimal, Ne, List.map_eq_nil_iff]
  exact Nat.toDigits_ne_nil

theorem natOfDigits_decimal (n : Nat) : natOfDigits (decimal n) = n := by
  have digits : ∀ c ∈ Nat.toDigits 10 n, c.isDigit = true := fun c listed =>
    Nat.isDigit_of_mem_toDigits (by decide) (by decide) listed
  have read : natOfDigits (decimal n) = Nat.ofDigitChars 10 (Nat.toDigits 10 n) 0 := by
    rw [natOfDigits, decimal, List.foldl_map, Nat.ofDigitChars]
    apply List.foldl_ext
    intro value c listed
    rw [(digit_byte (digits c listed)).2]
    rfl
  rw [read]
  exact Nat.ofDigitChars_toDigits (by decide) (by decide)

end TurtleLogo.Text
