import Mathlib.Data.List.DropRight
import Mathlib.Data.List.TakeWhile
import TurtleLogo.Text.Bytes

/-!
Texts as lines. Cutting a text at its newlines and joining lines with newlines undo each other, and
blank lines at the end are newlines at the end. Where every line end is a newline, no carriage
return is left.
-/
namespace TurtleLogo.Text

theorem dropEndWhile_append (p : UInt8 → Bool) (text : Bytes) :
    ∃ tail, text = dropEndWhile p text ++ tail ∧ ∀ b ∈ tail, p b = true := by
  refine ⟨(text.reverse.takeWhile p).reverse, ?_, ?_⟩
  · rw [dropEndWhile, ← List.reverse_append, List.takeWhile_append_dropWhile, List.reverse_reverse]
  · intro b member
    exact List.mem_takeWhile_imp (List.mem_reverse.mp member)

theorem lines_cons (b : UInt8) (text : Bytes) :
    ∃ first rest, lines text = first :: rest ∧
      lines (b :: text) = if b = newline then [] :: first :: rest else (b :: first) :: rest := by
  have nonempty : splitOn newline text ≠ [] := by
    cases text with
    | nil => simp [splitOn]
    | cons c text =>
      rw [splitOn]
      split
      · simp
      · split <;> simp
  obtain ⟨first, rest, cut⟩ := List.exists_cons_of_ne_nil nonempty
  refine ⟨first, rest, cut, ?_⟩
  simp only [lines, splitOn, cut, beq_iff_eq]

theorem joined_lines (text : Bytes) : joined [newline] (lines text) = text := by
  induction text with
  | nil => rfl
  | cons b text ih =>
    obtain ⟨first, rest, cut, more⟩ := lines_cons b text
    rw [cut] at ih
    rw [more]
    split
    · rename_i ends
      rw [ends, ← ih]
      simp [joined, List.intercalate]
    · rw [← ih]
      cases rest <;> simp [joined, List.intercalate]

theorem newline_not_mem_line (text : Bytes) : ∀ line ∈ lines text, newline ∉ line := by
  induction text with
  | nil => simp [lines, splitOn]
  | cons b text ih =>
    obtain ⟨first, rest, cut, more⟩ := lines_cons b text
    rw [cut] at ih
    rw [more]
    split
    · intro line member
      rcases List.mem_cons.mp member with rfl | later
      · simp
      · exact ih line later
    · rename_i goes_on
      intro line member
      rcases List.mem_cons.mp member with rfl | later
      · have kept := ih first List.mem_cons_self
        simp [kept, Ne.symm goes_on]
      · exact ih line (List.mem_cons_of_mem first later)

theorem unifyEnds_cons {b : UInt8} (other : b ≠ carriageReturn) (rest : Bytes) :
    unifyEnds (b :: rest) = b :: unifyEnds rest := by
  have differs : b ≠ 13 := other
  rw [unifyEnds]
  · simp [other]
  · simp [differs]

theorem unifyEnds_append {text : Bytes} (rest : Bytes) (unreturned : carriageReturn ∉ text) :
    unifyEnds (text ++ rest) = text ++ unifyEnds rest := by
  induction text with
  | nil => rfl
  | cons b text ih =>
    simp only [List.mem_cons, not_or] at unreturned
    rw [List.cons_append, unifyEnds_cons (Ne.symm unreturned.1), ih unreturned.2, List.cons_append]

theorem unifyEnds_of_no_return {text : Bytes} (unreturned : carriageReturn ∉ text) :
    unifyEnds text = text := by
  have kept := unifyEnds_append [] unreturned
  rwa [List.append_nil, unifyEnds, List.append_nil] at kept

theorem unifyEnds_return (rest : Bytes) :
    ∃ more, unifyEnds (carriageReturn :: rest) = newline :: more ∧
      (more = unifyEnds rest ∨ newline :: more = unifyEnds rest) := by
  cases rest with
  | nil => exact ⟨[], rfl, .inl rfl⟩
  | cons c rest =>
    by_cases paired : c = 10
    · subst paired
      exact ⟨unifyEnds rest, rfl, .inr (unifyEnds_cons (by decide) rest).symm⟩
    · refine ⟨unifyEnds (c :: rest), ?_, .inl rfl⟩
      rw [unifyEnds]
      · rfl
      · simp [paired]

theorem lines_of_one {line : Bytes} (one : newline ∉ line) : lines line = [line] := by
  induction line with
  | nil => rfl
  | cons b line ih =>
    obtain ⟨first, rest, cut, more⟩ := lines_cons b line
    rw [List.mem_cons, not_or] at one
    rw [ih one.2, List.cons.injEq] at cut
    rw [more, if_neg (Ne.symm one.1), ← cut.1, ← cut.2]

theorem lines_append_newline {line : Bytes} (rest : Bytes) (one : newline ∉ line) :
    lines (line ++ newline :: rest) = line :: lines rest := by
  induction line with
  | nil =>
    obtain ⟨first, others, cut, more⟩ := lines_cons newline rest
    rw [List.nil_append, more, if_pos rfl, cut]
  | cons b line ih =>
    obtain ⟨first, others, cut, more⟩ := lines_cons b (line ++ newline :: rest)
    rw [List.mem_cons, not_or] at one
    rw [ih one.2, List.cons.injEq] at cut
    rw [List.cons_append, more, if_neg (Ne.symm one.1), ← cut.1, ← cut.2]

theorem lines_joined {ls : List Bytes} (nonempty : ls ≠ []) (each : ∀ line ∈ ls, newline ∉ line) :
    lines (joined [newline] ls) = ls := by
  induction ls with
  | nil => contradiction
  | cons line ls ih =>
    have one := each line List.mem_cons_self
    cases ls with
    | nil =>
      rw [joined, List.intercalate_singleton]
      exact lines_of_one one
    | cons next ls =>
      have others := ih (by simp) fun other member => each other (List.mem_cons_of_mem line member)
      rw [joined, List.intercalate_cons_cons, List.append_assoc, List.singleton_append,
        lines_append_newline _ one]
      exact congrArg (line :: ·) others

theorem first_line_induction {P : Bytes → Prop} (one : ∀ line, newline ∉ line → P line)
    (more : ∀ line rest, newline ∉ line → P rest → P (line ++ newline :: rest)) (text : Bytes) :
    P text := by
  induction size : text.length using Nat.strongRecOn generalizing text with
  | ind n ih =>
    by_cases several : newline ∈ text
    · obtain ⟨line, rest, rfl, first⟩ := List.eq_append_cons_of_mem several
      refine more line rest first (ih rest.length ?_ rest rfl)
      rw [List.length_append, List.length_cons] at size
      omega
    · exact one text several

theorem joined_concat {ls : List Bytes} (nonempty : ls ≠ []) (line : Bytes) :
    joined [newline] (ls ++ [line]) = joined [newline] ls ++ newline :: line := by
  induction ls with
  | nil => contradiction
  | cons first ls ih =>
    cases ls with
    | nil => simp [joined, List.intercalate]
    | cons next ls =>
      have others := ih (by simp)
      simp only [joined, List.cons_append, List.intercalate_cons_cons] at others ⊢
      rw [others]
      simp

/-- Newlines at the end of a text stand for blank lines at its end. -/
theorem dropEndWhile_joined {ls : List Bytes} (each : ∀ line ∈ ls, newline ∉ line) :
    dropEndWhile (· == newline) (joined [newline] ls) =
      joined [newline] (ls.rdropWhile List.isEmpty) := by
  induction ls using List.reverseRecOn with
  | nil => rfl
  | append_singleton ls line ih =>
    have others := ih fun other member => each other (List.mem_append_left _ member)
    by_cases blank : line = []
    · subst blank
      rw [List.rdropWhile_concat_pos _ _ _ rfl, ← others]
      by_cases first : ls = []
      · subst first
        rfl
      · rw [joined_concat first]
        exact List.rdropWhile_concat_pos _ _ _ rfl
    · have full : ¬line.isEmpty := by simpa using blank
      rw [List.rdropWhile_concat_neg _ _ _ full]
      have last : (line.getLast blank == newline) = false := by
        have differs : line.getLast blank ≠ newline := fun same =>
          each line (by simp) (same ▸ List.getLast_mem blank)
        simpa using differs
      refine List.rdropWhile_eq_self_iff.mpr fun nonempty => ?_
      have ends : (joined [newline] (ls ++ [line])).getLast nonempty = line.getLast blank := by
        by_cases first : ls = []
        · subst first
          simp [joined]
        · simp only [joined_concat first]
          rw [List.getLast_append_of_right_ne_nil _ _ (by simp), List.getLast_cons blank]
      rw [ends, last]
      decide

theorem mem_joined_by {sep : Bytes} {ls : List Bytes} {b : UInt8} (member : b ∈ joined sep ls) :
    b ∈ sep ∨ ∃ line ∈ ls, b ∈ line := by
  induction ls with
  | nil => exact absurd member List.not_mem_nil
  | cons line ls ih =>
    cases ls with
    | nil =>
      rw [joined, List.intercalate_singleton] at member
      exact .inr ⟨line, List.mem_cons_self, member⟩
    | cons next ls =>
      rw [joined, List.intercalate_cons_cons, List.append_assoc, List.mem_append,
        List.mem_append] at member
      rcases member with first | between | later
      · exact .inr ⟨line, List.mem_cons_self, first⟩
      · exact .inl between
      · obtain between | ⟨other, among, found⟩ := ih later
        · exact .inl between
        · exact .inr ⟨other, List.mem_cons_of_mem line among, found⟩

theorem mem_joined {ls : List Bytes} {b : UInt8} (member : b ∈ joined [newline] ls) :
    b = newline ∨ ∃ line ∈ ls, b ∈ line :=
  (mem_joined_by member).imp_left List.mem_singleton.mp

theorem mem_of_mem_line {text line : Bytes} {b : UInt8} (among : line ∈ lines text)
    (member : b ∈ line) : b ∈ text := by
  induction text generalizing line with
  | nil =>
    obtain rfl : line = [] := by simpa [lines, splitOn] using among
    exact member
  | cons c text ih =>
    obtain ⟨first, rest, cut, more⟩ := lines_cons c text
    rw [cut] at ih
    rw [more] at among
    split at among
    · rcases List.mem_cons.mp among with rfl | inside
      · simp at member
      · exact List.mem_cons_of_mem c (ih inside member)
    · rcases List.mem_cons.mp among with rfl | inside
      · rcases List.mem_cons.mp member with rfl | found
        · exact List.mem_cons_self
        · exact List.mem_cons_of_mem c (ih List.mem_cons_self found)
      · exact List.mem_cons_of_mem c (ih (List.mem_cons_of_mem first inside) member)

theorem return_not_mem_unifyEnds (text : Bytes) : carriageReturn ∉ unifyEnds text := by
  induction text with
  | nil => simp [unifyEnds]
  | cons b text ih =>
    by_cases ends : b = carriageReturn
    · subst ends
      obtain ⟨more, begins, same | same⟩ := unifyEnds_return text
      · rw [begins, same, List.mem_cons, not_or]
        exact ⟨by decide, ih⟩
      · rwa [begins, same]
    · rw [unifyEnds_cons ends, List.mem_cons, not_or]
      exact ⟨Ne.symm ends, ih⟩

end TurtleLogo.Text
