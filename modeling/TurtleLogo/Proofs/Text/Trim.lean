import Mathlib.Data.List.DropRight
import TurtleLogo.Proofs.Text.Runes

/-!
Trimming takes whole runes from both ends of a text. What stays is read as the same runes as
before, so trimming once more changes nothing, and neither do spaces put in front of it.
-/
namespace TurtleLogo.Text

/-- A part of the runes of a text is read back from its own bytes, wherever it was cut off. -/
theorem runePieces_of_append {text : Bytes} {front back : List (Rune × Bytes)}
    (cut : runePieces text = front ++ back) :
    runePieces (front.flatMap Prod.snd) = front ∧ runePieces (back.flatMap Prod.snd) = back := by
  have bytes : text = front.flatMap Prod.snd ++ back.flatMap Prod.snd := by
    rw [← List.flatMap_append, ← cut, flatten_runePieces]
  induction front generalizing text with
  | nil =>
    constructor
    · rfl
    · rw [List.nil_append] at cut
      rw [← cut, flatten_runePieces, cut]
  | cons piece front ih =>
    cases text with
    | nil => simp [runePieces, runePiecesFrom] at cut
    | cons b rest =>
      have width := firstRune_width b rest
      rw [runePieces_cons, List.cons_append, List.cons.injEq] at cut
      obtain ⟨rfl, others⟩ := cut
      have later : (b :: rest).drop (firstRune (b :: rest)).width =
          front.flatMap Prod.snd ++ back.flatMap Prod.snd := by
        rw [← List.flatMap_append, ← others, flatten_runePieces]
      obtain ⟨inside, behind⟩ := ih others later
      refine ⟨?_, behind⟩
      -- The first rune is the same one although the bytes behind `front` are gone.
      rw [List.flatMap_cons] at bytes ⊢
      have size : ((b :: rest).take (firstRune (b :: rest)).width).length =
          (firstRune (b :: rest)).width := by
        rw [List.length_take]
        omega
      generalize taken : (b :: rest).take (firstRune (b :: rest)).width = head at bytes size ⊢
      have same : firstRune (head ++ front.flatMap Prod.snd) = firstRune (b :: rest) := by
        rw [bytes]
        apply firstRune_of_inside
        rw [← bytes, List.length_append]
        omega
      obtain ⟨c, more, starts⟩ : ∃ c more, head ++ front.flatMap Prod.snd = c :: more := by
        apply List.exists_cons_of_ne_nil
        intro empty
        rw [List.append_eq_nil_iff] at empty
        rw [empty.1, List.length_nil] at size
        omega
      rw [starts, runePieces_cons, ← starts, same, ← size, List.take_left, List.drop_left, inside]

theorem runePieces_trimStart (text : Bytes) :
    runePieces (trimStart text) = (runePieces text).dropWhile fun (r, _) => isBlank r := by
  rw [trimStart]
  exact (runePieces_of_append List.takeWhile_append_dropWhile.symm).2

theorem runePieces_trimEnd (text : Bytes) :
    runePieces (trimEnd text) = (runePieces text).rdropWhile fun (r, _) => isBlank r := by
  rw [trimEnd]
  exact (runePieces_of_append List.rdropWhile_append_rtakeWhile.symm).1

theorem runePieces_injective {text other : Bytes} (same : runePieces text = runePieces other) :
    text = other := by
  rw [← flatten_runePieces text, same, flatten_runePieces]

theorem trimEnd_trimEnd (text : Bytes) : trimEnd (trimEnd text) = trimEnd text := by
  apply runePieces_injective
  rw [runePieces_trimEnd, runePieces_trimEnd, List.rdropWhile_idempotent]

theorem trimStart_trim (text : Bytes) : trimStart (trim text) = trim text := by
  apply runePieces_injective
  rw [runePieces_trimStart, trim, runePieces_trimEnd, runePieces_trimStart]
  have starts := List.head?_dropWhile_not (fun (r, _) => isBlank r) (runePieces text)
  generalize (runePieces text).dropWhile (fun (r, _) => isBlank r) = kept at starts ⊢
  obtain ⟨blanks, parts⟩ := List.rdropWhile_prefix (fun (r, _) => isBlank r) kept
  cases first : kept.rdropWhile fun (r, _) => isBlank r with
  | nil => rfl
  | cons piece more =>
    rw [first] at parts
    rw [← parts, List.cons_append, List.head?_cons] at starts
    exact List.dropWhile_cons_of_neg (by simpa using starts)

theorem trim_trim (text : Bytes) : trim (trim text) = trim text := by
  have kept := trimStart_trim text
  rw [trim, kept, trim, trimEnd_trimEnd]

theorem trim_indented (n : Nat) (text : Bytes) :
    trim (List.replicate n space ++ text) = trim text := by
  induction n with
  | zero => rfl
  | succ n ih =>
    have gone : trimStart (space :: (List.replicate n space ++ text)) =
        trimStart (List.replicate n space ++ text) := by
      rw [trimStart, runePieces_cons, firstRune_of_low (by decide), List.dropWhile_cons_of_pos rfl]
      rfl
    rw [List.replicate_succ, List.cons_append, trim, gone, ← trim, ih]

end TurtleLogo.Text
