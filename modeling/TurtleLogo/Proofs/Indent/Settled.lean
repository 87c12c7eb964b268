import TurtleLogo.Proofs.Indent.Layout
import TurtleLogo.Proofs.Text.Trim

/-!
A text that is laid out is laid out as it is. The lines of the result are the lines of the layout
without the blank ones at its end, and a laid out line has the same content, and so opens and
closes the same, as the line it was made from.
-/
namespace TurtleLogo
open Text

namespace Text

theorem mem_of_mem_trim {text : Bytes} {b : UInt8} (member : b ∈ trim text) : b ∈ text := by
  obtain ⟨front, start⟩ := trimStart_suffix text
  obtain ⟨blanks, parts, -⟩ := trimEnd_append (trimStart text)
  rw [start, parts]
  exact List.mem_append_right _ (List.mem_append_left _ member)

end Text

namespace Indent

theorem layout_blank {line : Bytes} (blank : trim line = []) (depth : Nat) (ls : List Bytes) :
    layout depth (line :: ls) = [] :: layout depth ls := by
  simp [layout, blank]

theorem layout_full {line : Bytes} (full : trim line ≠ []) (depth : Nat) (ls : List Bytes) :
    layout depth (line :: ls) =
      (List.replicate (2 * (depth - leadingClosers (tokenize (trim line)).tokens)) space ++
        trim line) :: layout ((tokenize (trim line)).tokens.foldl deepen depth) ls := by
  simp [layout, full]

theorem layout_length (depth : Nat) (ls : List Bytes) : (layout depth ls).length = ls.length := by
  induction ls generalizing depth with
  | nil => rfl
  | cons line ls ih =>
    by_cases blank : trim line = []
    · rw [layout_blank blank, List.length_cons, ih, List.length_cons]
    · rw [layout_full blank, List.length_cons, ih, List.length_cons]

def found (ls : List Bytes) : List Token := ls.flatMap fun line => (tokenize (trim line)).tokens

def reached (depth : Nat) (ls : List Bytes) : Nat := (found ls).foldl deepen depth

theorem layout_append (depth : Nat) (ls more : List Bytes) :
    layout depth (ls ++ more) = layout depth ls ++ layout (reached depth ls) more := by
  induction ls generalizing depth with
  | nil => rfl
  | cons line ls ih =>
    have onward : reached depth (line :: ls) =
        reached ((tokenize (trim line)).tokens.foldl deepen depth) ls := by
      rw [reached, found, List.flatMap_cons, List.foldl_append, reached, found]
    rw [onward, List.cons_append]
    by_cases blank : trim line = []
    · rw [layout_blank blank, layout_blank blank, ih, blank, List.cons_append]
      rfl
    · rw [layout_full blank, layout_full blank, ih, List.cons_append]

theorem mem_layout {depth : Nat} {ls : List Bytes} {line : Bytes} {b : UInt8}
    (laid : line ∈ layout depth ls) (member : b ∈ line) :
    b = space ∨ ∃ other ∈ ls, b ∈ other := by
  induction ls generalizing depth with
  | nil => simp [layout] at laid
  | cons first ls ih =>
    have later : ∀ depth, line ∈ layout depth ls →
        b = space ∨ ∃ other ∈ first :: ls, b ∈ other := by
      intro depth inside
      rcases ih inside with blank | ⟨other, among, found⟩
      · exact .inl blank
      · exact .inr ⟨other, List.mem_cons_of_mem first among, found⟩
    by_cases blank : trim first = []
    · rw [layout_blank blank] at laid
      rcases List.mem_cons.mp laid with rfl | inside
      · simp at member
      · exact later _ inside
    · rw [layout_full blank] at laid
      rcases List.mem_cons.mp laid with same | inside
      · rw [same, List.mem_append] at member
        rcases member with indent | content
        · exact .inl (List.eq_of_mem_replicate indent)
        · exact .inr ⟨first, List.mem_cons_self, mem_of_mem_trim content⟩
      · exact later _ inside

/-- A laid out line has the content of the line that it was made from, and so leads to the same
    depth. -/
theorem layout_layout (depth : Nat) (ls : List Bytes) :
    layout depth (layout depth ls) = layout depth ls := by
  induction ls generalizing depth with
  | nil => rfl
  | cons line ls ih =>
    by_cases blank : trim line = []
    · rw [layout_blank blank, layout_blank rfl, ih]
    · have content : ∀ n, trim (List.replicate n space ++ trim line) = trim line := by
        intro n
        rw [trim_indented, trim_trim]
      rw [layout_full blank, layout_full (by rwa [content]), content, ih]

theorem laid_out_line {source line : Bytes} (laid : line ∈ layout 0 (lines (unifyEnds source))) :
    newline ∉ line ∧ carriageReturn ∉ line := by
  constructor
  · intro inside
    rcases mem_layout laid inside with blank | ⟨other, among, found⟩
    · exact absurd blank (by decide)
    · exact newline_not_mem_line _ other among found
  · intro inside
    rcases mem_layout laid inside with blank | ⟨other, among, found⟩
    · exact absurd blank (by decide)
    · exact return_not_mem_unifyEnds source (mem_of_mem_line among found)

def standing (source : Bytes) : List Bytes :=
  (layout 0 (lines (unifyEnds source))).rdropWhile List.isEmpty

theorem standing_prefix (source : Bytes) :
    ∃ blanks, standing source ++ blanks = layout 0 (lines (unifyEnds source)) ∧
      ∀ line ∈ blanks, line = [] :=
  ⟨_, List.rdropWhile_append_rtakeWhile, fun _ member =>
    List.isEmpty_iff.mp (List.mem_rtakeWhile_imp member)⟩

theorem standing_line {source line : Bytes} (member : line ∈ standing source) :
    newline ∉ line ∧ carriageReturn ∉ line := by
  obtain ⟨blanks, parts, -⟩ := standing_prefix source
  have laid : line ∈ layout 0 (lines (unifyEnds source)) := by
    rw [← parts]
    exact List.mem_append_left blanks member
  exact laid_out_line laid

theorem layout_standing (source : Bytes) : layout 0 (standing source) = standing source := by
  obtain ⟨blanks, parts, -⟩ := standing_prefix source
  have whole := layout_layout 0 (lines (unifyEnds source))
  rw [← parts, layout_append] at whole
  exact (List.append_inj whole (layout_length 0 _)).1

end Indent

theorem formatted_eq (source : Bytes) :
    formatted source = joined [newline] (Indent.standing source) ++ [newline] := by
  rw [formatted, dropEndWhile_joined fun line laid => (Indent.laid_out_line laid).1,
    Indent.standing]

theorem lines_formatted {source : Bytes} (nonempty : Indent.standing source ≠ []) :
    lines (formatted source) = Indent.standing source ++ [[]] := by
  rw [formatted_eq, ← joined_concat nonempty, lines_joined (by simp)]
  intro line member
  rcases List.mem_append.mp member with stands | last
  · exact (Indent.standing_line stands).1
  · simp_all

theorem standing_formatted (source : Bytes) :
    Indent.standing (formatted source) = Indent.standing source := by
  have unreturned : carriageReturn ∉ formatted source := by
    rw [formatted_eq, List.mem_append, not_or]
    constructor
    · intro inside
      rcases mem_joined inside with ends | ⟨line, among, found⟩
      · exact absurd ends (by decide)
      · exact (Indent.standing_line among).2 found
    · decide
  by_cases empty : Indent.standing source = []
  · rw [formatted_eq, empty]
    rfl
  · rw [Indent.standing, unifyEnds_of_no_return unreturned, lines_formatted empty,
      Indent.layout_append,
      Indent.layout_standing, Indent.layout_blank rfl, Indent.layout,
      List.rdropWhile_concat_pos _ _ _ rfl, Indent.standing, List.rdropWhile_idempotent]

theorem formatted_formatted (source : Bytes) : formatted (formatted source) = formatted source := by
  rw [formatted_eq, standing_formatted, ← formatted_eq]

end TurtleLogo
