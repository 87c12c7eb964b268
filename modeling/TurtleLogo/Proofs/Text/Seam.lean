import TurtleLogo.Proofs.Text.Trim

/-!
Where a text may be cut without cutting a rune. A byte below 128 may be cut off on either side,
since it is no part of a longer sequence; so lines may be cut off, and no line has a rune that
stands for a newline or takes one in.
-/
namespace TurtleLogo.Text

/-- No rune goes over from one text into the other. -/
def Seam (front back : Bytes) : Prop :=
  runePieces (front ++ back) = runePieces front ++ runePieces back

namespace Seam
variable {front mid back : Bytes}

theorem nil_left (back : Bytes) : Seam [] back := rfl

theorem nil_right (front : Bytes) : Seam front [] := by
  rw [Seam, List.append_nil]
  exact (List.append_nil _).symm

theorem of_pieces {pieces rest : List (Rune × Bytes)}
    (parts : runePieces (front ++ back) = pieces ++ rest)
    (own : pieces.flatMap Prod.snd = front) : Seam front back := by
  obtain ⟨first, second⟩ := runePieces_of_append parts
  have bytes : pieces.flatMap Prod.snd ++ rest.flatMap Prod.snd = front ++ back := by
    rw [← List.flatMap_append, ← parts, flatten_runePieces]
  rw [own] at first bytes
  rw [List.append_cancel_left bytes] at second
  rw [Seam, parts, first, second]

theorem append (first : Seam front (mid ++ back)) (second : Seam mid back) :
    Seam (front ++ mid) back := by
  have parts : runePieces (front ++ mid ++ back) =
      (runePieces front ++ runePieces mid) ++ runePieces back := by
    rw [List.append_assoc, first, second, List.append_assoc]
  refine of_pieces parts ?_
  rw [List.flatMap_append, flatten_runePieces, flatten_runePieces]

/-- Where a text is cut twice, what is between the cuts has its own runes. -/
theorem between (first : Seam front (mid ++ back)) (second : Seam (front ++ mid) back) :
    Seam front mid ∧ Seam mid back := by
  have bytes := second
  rw [Seam, List.append_assoc, first] at bytes
  obtain ⟨inner, whole, rest⟩ | ⟨extra, whole, rest⟩ := List.append_eq_append_iff.mp bytes
  · have own : mid = inner.flatMap Prod.snd := by
      have all := congrArg (List.flatMap Prod.snd) whole
      rw [List.flatMap_append, flatten_runePieces, flatten_runePieces] at all
      exact List.append_cancel_left all
    obtain ⟨alone, -⟩ := runePieces_of_append rest
    rw [← own] at alone
    exact ⟨by rw [Seam, whole, alone], by rw [Seam, rest, alone]⟩
  · -- the runes of the first part go on, so there is nothing between
    have sizes := congrArg (fun pieces => (pieces.flatMap Prod.snd).length) whole
    simp only [List.flatMap_append, flatten_runePieces, List.length_append] at sizes
    obtain rfl : mid = [] := List.length_eq_zero_iff.mp (by omega)
    exact ⟨nil_right front, nil_left back⟩

theorem extend (first : Seam front mid) (cut : ∀ text, Seam text back) :
    Seam front (mid ++ back) := by
  rw [Seam, ← List.append_assoc, cut, first, cut mid, List.append_assoc]

theorem before_low {c : UInt8} (low : c < 0x80) (text rest : Bytes) : Seam text (c :: rest) := by
  induction size : text.length using Nat.strongRecOn generalizing text with
  | ind n ih =>
    cases text with
    | nil => exact nil_left _
    | cons b text =>
      have width := firstRune_width b text
      have later := ih ((b :: text).drop (firstRune (b :: text)).width).length
        (by rw [List.length_drop]; omega) _ rfl
      rw [Seam, List.cons_append, runePieces_cons, ← List.cons_append, firstRune_append low,
        List.take_append_of_le_length width.2, List.drop_append_of_le_length width.2, later,
        runePieces_cons b text, List.cons_append]

theorem of_low {c : UInt8} (low : c < 0x80) (rest : Bytes) : Seam [c] rest := by
  rw [Seam, List.singleton_append, runePieces_cons, runePieces_cons, firstRune_of_low low,
    firstRune_of_low low]
  rfl

theorem of_all_low (all : ∀ b ∈ front, b < 0x80) (back : Bytes) : Seam front back := by
  induction front with
  | nil => exact nil_left back
  | cons b front ih =>
    have others := ih fun c member => all c (List.mem_cons_of_mem b member)
    rw [← List.singleton_append]
    exact (of_low (all b List.mem_cons_self) (front ++ back)).append others

theorem newline_right (text rest : Bytes) : Seam text (newline :: rest) :=
  before_low (by decide) text rest

theorem newline_left (text rest : Bytes) : Seam (text ++ [newline]) rest :=
  (newline_right text rest).append (of_low (by decide) rest)

end Seam

theorem runes_append {front back : Bytes} (seam : Seam front back) :
    runes (front ++ back) = runes front ++ runes back := by
  unfold runes
  rw [seam, List.map_append]

def lastLine (text : Bytes) : Bytes := text.rtakeWhile (· != newline)

def firstLine (text : Bytes) : Bytes := text.takeWhile (· != newline)

theorem bne_newline {line : Bytes} (one : newline ∉ line) : ∀ b ∈ line, (b != newline) = true := by
  intro b member
  have differs : b ≠ newline := fun same => one (same ▸ member)
  simpa using differs

theorem lastLine_append_one {line : Bytes} (text : Bytes) (one : newline ∉ line) :
    lastLine (text ++ line) = lastLine text ++ line := by
  have all : ∀ b ∈ line.reverse, (b != newline) = true := fun b member =>
    bne_newline one b (List.mem_reverse.mp member)
  rw [lastLine, List.rtakeWhile, List.reverse_append, List.takeWhile_append_of_pos all,
    List.reverse_append, List.reverse_reverse]
  rfl

theorem lastLine_of_one {line : Bytes} (one : newline ∉ line) : lastLine line = line :=
  lastLine_append_one [] one

theorem lastLine_append {line : Bytes} (text : Bytes) (one : newline ∉ line) :
    lastLine (text ++ newline :: line) = line := by
  have ended : lastLine (text ++ [newline]) = [] := by
    rw [lastLine, List.rtakeWhile_concat_neg _ _ _ (by simp)]
  rw [← List.singleton_append, ← List.append_assoc, lastLine_append_one _ one,
    ended, List.nil_append]

theorem line_induction {P : Bytes → Prop} (one : ∀ line, newline ∉ line → P line)
    (more : ∀ text line, newline ∉ line → P text → P (text ++ newline :: line)) (text : Bytes) :
    P text := by
  induction size : text.length using Nat.strongRecOn generalizing text with
  | ind n ih =>
    by_cases several : newline ∈ text
    · obtain ⟨last, before, parts, single⟩ :=
        List.eq_append_cons_of_mem (List.mem_reverse.mpr several)
      have text_eq : text = before.reverse ++ newline :: last.reverse := by
        rw [← List.reverse_reverse text, parts]
        simp
      rw [text_eq] at size ⊢
      refine more _ _ (by simpa using single) (ih _ ?_ _ rfl)
      rw [List.length_append, List.length_cons] at size
      omega
    · exact one text several

theorem lastLine_behind (text rest : Bytes) :
    lastLine (text ++ newline :: rest) = lastLine rest := by
  induction rest using line_induction with
  | one line one => rw [lastLine_append text one, lastLine_of_one one]
  | more rest line one _ =>
    rw [← List.cons_append, ← List.append_assoc, lastLine_append _ one, lastLine_append _ one]

theorem rune_of_line {line : Bytes} (one : newline ∉ line) :
    ∀ piece ∈ runePieces line, piece.1 ≠ newline.toNat := by
  intro piece member same
  obtain ⟨b, tail, bytes, low, high⟩ := mem_runePieces member
  by_cases ascii : b < 0x80
  · have alone := low ascii
    rw [alone] at same
    obtain rfl : b = newline := UInt8.toNat_inj.mp same
    have inside : newline ∈ (runePieces line).flatMap Prod.snd :=
      List.mem_flatMap.mpr ⟨piece, member, by rw [bytes]; exact List.mem_cons_self⟩
    rw [flatten_runePieces] at inside
    exact one inside
  · have bound := high ascii
    rw [same] at bound
    exact absurd bound (by decide)

theorem firstLine_seam (text : Bytes) :
    ∃ rest, text = firstLine text ++ rest ∧ Seam (firstLine text) rest := by
  refine ⟨text.dropWhile (· != newline), List.takeWhile_append_dropWhile.symm, ?_⟩
  have stop := List.head?_dropWhile_not (· != newline) text
  cases rest : text.dropWhile (· != newline) with
  | nil => exact .nil_right _
  | cons b more =>
    rw [rest] at stop
    obtain rfl : b = newline := by simpa using stop
    exact .newline_right _ _

theorem lastLine_seam (text : Bytes) :
    ∃ before, text = before ++ lastLine text ∧ ∀ rest, Seam before rest := by
  induction text using line_induction with
  | one line one => exact ⟨[], by rw [lastLine_of_one one, List.nil_append], .nil_left⟩
  | more text line one _ =>
    exact ⟨text ++ [newline], by simp [lastLine_append text one], .newline_left text⟩

theorem Seam.within_line {front back : Bytes} (seam : Seam front back) :
    Seam (lastLine front) (firstLine back) := by
  obtain ⟨before, start, apart⟩ := lastLine_seam front
  obtain ⟨rest, ends, last⟩ := firstLine_seam back
  generalize lastLine front = line at start ⊢
  generalize firstLine back = more at ends last ⊢
  subst start ends
  have whole : Seam (before ++ line) more := (seam.between (seam.append last)).1
  exact ((apart (line ++ more)).between whole).2

end TurtleLogo.Text
