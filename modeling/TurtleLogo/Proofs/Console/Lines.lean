import TurtleLogo.Console.View
import TurtleLogo.Proofs.Console.Recall
import TurtleLogo.Proofs.Evaluate.Vocabulary
import TurtleLogo.Proofs.Scan.InLine
import TurtleLogo.Proofs.Text.Bytes

/-!
What the console shows, line by line. The view is put together from lines, and no newline is hidden
in any of them: words of a program have none, numbers are written with digits and signs, and what
was entered or came of it is cut at its newlines.
-/
namespace TurtleLogo
open Text

mutual

theorem stmt_coined_written : ∀ s : Stmt, ∀ name ∈ s.coined,
    ∃ x ∈ s.lexemes, x.spelling = .text name ∨ x.spelling = .sigiled name
  | .define pos name namePos params body, word, member => by
    rcases List.mem_cons.mp member with rfl | others
    · exact ⟨⟨.identifier, .text word, some namePos⟩, by simp [Stmt.lexemes], .inl rfl⟩
    rcases List.mem_append.mp others with param | inside
    · exact ⟨⟨.paramName, .sigiled word, none⟩, by simp [Stmt.lexemes, param], .inr rfl⟩
    · obtain ⟨x, listed, spelled⟩ := coined_written body word inside
      exact ⟨x, by simp [Stmt.lexemes, listed], spelled⟩
  | .make pos name value, word, member => by
    obtain rfl := List.mem_singleton.mp member
    exact ⟨⟨.varName, .sigiled word, none⟩, by simp [Stmt.lexemes], .inr rfl⟩
  | .loop pos count body, word, member => by
    obtain ⟨x, listed, spelled⟩ := coined_written body word member
    exact ⟨x, by simp [Stmt.lexemes, listed], spelled⟩
  | .test pos left op right body, word, member => by
    obtain ⟨x, listed, spelled⟩ := coined_written body word member
    exact ⟨x, by simp [Stmt.lexemes, listed], spelled⟩
  | .loopCall .., _, member | .pen .., _, member | .move .., _, member | .turn .., _, member
  | .home _, _, member | .setXY .., _, member | .setHeading .., _, member | .call .., _, member
  | .stop _, _, member | .output .., _, member => absurd member List.not_mem_nil

theorem coined_written : ∀ ss : List Stmt, ∀ name ∈ coinedIn ss,
    ∃ x ∈ lexemesOf ss, x.spelling = .text name ∨ x.spelling = .sigiled name
  | [], _, member => absurd member List.not_mem_nil
  | s :: rest, word, member => by
    rcases List.mem_append.mp member with first | later
    · obtain ⟨x, listed, spelled⟩ := stmt_coined_written s word first
      exact ⟨x, List.mem_append_left _ listed, spelled⟩
    · obtain ⟨x, listed, spelled⟩ := coined_written rest word later
      exact ⟨x, List.mem_append_right _ listed, spelled⟩

end

theorem coined_one_line {source : Bytes} {p : Program} (accepted : parse source = .ok p) :
    ∀ name ∈ coinedIn p.statements, newline ∉ name := by
  intro name member
  obtain ⟨x, listed, spelled⟩ := coined_written p.statements name member
  obtain ⟨t, inside, ⟨-, admits⟩, -⟩ := lexemes_stand accepted x listed
  obtain ⟨word, -⟩ := token_inLine inside
  rcases spelled with text | sigiled
  · rw [text] at admits
    obtain rfl : t.literal = name := admits
    exact word.no_newline
  · rw [sigiled] at admits
    obtain rfl : t.literal.drop 1 = name := admits
    exact fun within => word.no_newline (List.mem_of_mem_drop within)

namespace Number

def isNumeral (b : UInt8) : Bool := isDigit b || (utf8 "+-.eInfNaN").contains b

theorem newline_not_numeral : isNumeral newline = false := by decide

theorem numeral_of_digit {b : UInt8} (digit : isDigit b = true) : isNumeral b = true := by
  rw [isNumeral, digit, Bool.true_or]

theorem zeros_numeral (n : Nat) : ∀ b ∈ zeros n, isNumeral b = true := by
  intro b member
  rw [List.eq_of_mem_replicate member]
  decide

theorem decimal_numeral (n : Nat) : ∀ b ∈ decimal n, isNumeral b = true :=
  fun b member => numeral_of_digit (decimal_digits n b member)

theorem shortest_numeral (m : Nat) (e : Int) :
    ∀ b ∈ (shortest m e).digits, isNumeral b = true := by
  intro b member
  unfold shortest at member
  dsimp only at member
  split at member
  · next d power found =>
    obtain ⟨tail, parts, -⟩ := dropEndWhile_append (· == byte '0') (decimal d)
    refine decimal_numeral d b ?_
    rw [parts]
    exact List.mem_append_left _ member
  · exact absurd member List.not_mem_nil

theorem exponentText_numeral (e : Int) : ∀ b ∈ exponentText e, isNumeral b = true := by
  have sign : isNumeral (if e < 0 then byte '-' else byte '+') = true := by
    split <;> decide
  exact List.forall_mem_cons.mpr ⟨by decide, List.forall_mem_cons.mpr ⟨sign,
    List.forall_mem_append.mpr ⟨zeros_numeral _, decimal_numeral _⟩⟩⟩

section
variable {d : Digits} (digits : ∀ b ∈ d.digits, isNumeral b = true)
include digits

theorem positional_numeral : ∀ b ∈ d.positional, isNumeral b = true := by
  unfold Digits.positional
  split
  · have front := List.forall_mem_append.mpr
      ⟨(by decide +kernel : ∀ b ∈ utf8 "0.", isNumeral b = true), zeros_numeral (-d.point).toNat⟩
    exact List.forall_mem_append.mpr ⟨front, digits⟩
  split
  · exact List.forall_mem_append.mpr ⟨digits, zeros_numeral _⟩
  · refine List.forall_mem_append.mpr ⟨?_, List.forall_mem_cons.mpr ⟨by decide, ?_⟩⟩
    · exact fun b member => digits b (List.mem_of_mem_take member)
    · exact fun b member => digits b (List.mem_of_mem_drop member)

theorem scientific_numeral : ∀ b ∈ d.scientific, isNumeral b = true := by
  unfold Digits.scientific
  split
  · exact fun b member => absurd member List.not_mem_nil
  · next lead only =>
    rw [only] at digits
    exact List.forall_mem_cons.mpr ⟨digits lead List.mem_cons_self, exponentText_numeral _⟩
  · next lead rest _ parts =>
    rw [parts] at digits
    obtain ⟨first, others⟩ := List.forall_mem_cons.mp digits
    exact List.forall_mem_cons.mpr ⟨first, List.forall_mem_cons.mpr ⟨by decide,
      List.forall_mem_append.mpr ⟨others, exponentText_numeral _⟩⟩⟩

end

theorem text_numeral (x : Float) : ∀ b ∈ text x, isNumeral b = true := by
  unfold text
  split
  · decide +kernel
  · next negative _ => cases negative <;> decide +kernel
  · next negative m e _ =>
    dsimp only
    have magnitude : ∀ b ∈ if m == 0 then utf8 "0" else (shortest m e).text,
        isNumeral b = true := by
      split
      · decide +kernel
      · unfold Digits.text
        split
        · exact scientific_numeral (shortest_numeral m e)
        · exact positional_numeral (shortest_numeral m e)
    split
    · exact List.forall_mem_cons.mpr ⟨by decide +kernel, magnitude⟩
    · exact magnitude

theorem text_one_line (x : Float) : newline ∉ text x := by
  intro member
  have numeral := text_numeral x newline member
  rw [newline_not_numeral] at numeral
  contradiction

end Number

namespace Console
open Files

def Unbroken (ls : List Bytes) : Prop := ∀ line ∈ ls, newline ∉ line

namespace Unbroken
variable {ls others : List Bytes}

theorem append (first : Unbroken ls) (second : Unbroken others) : Unbroken (ls ++ others) :=
  List.forall_mem_append.mpr ⟨first, second⟩

theorem cons {line : Bytes} (first : newline ∉ line) (rest : Unbroken ls) :
    Unbroken (line :: ls) :=
  List.forall_mem_cons.mpr ⟨first, rest⟩

theorem nil : Unbroken [] := fun _ member => absurd member List.not_mem_nil

theorem map {f : Bytes → Bytes} (unbroken : Unbroken ls)
    (keeps : ∀ line, newline ∉ line → newline ∉ f line) : Unbroken (ls.map f) := by
  intro line member
  obtain ⟨inner, listed, rfl⟩ := List.mem_map.mp member
  exact keeps inner (unbroken inner listed)

theorem lines (text : Bytes) : Unbroken (lines text) := newline_not_mem_line text

theorem lines_joined (unbroken : Unbroken ls) (nonempty : ls ≠ []) :
    Text.lines (joined [newline] ls) = ls :=
  Text.lines_joined nonempty unbroken

end Unbroken

theorem padded_one_line (width : Nat) {line : Bytes} (one : newline ∉ line) :
    newline ∉ padded width line := by
  refine List.not_mem_append one fun member => ?_
  exact absurd (List.eq_of_mem_replicate member) (by decide)

theorem rule_one_line {left right : String} (width : Nat) (first : newline ∉ utf8 left)
    (last : newline ∉ utf8 right) : newline ∉ rule left right width := by
  refine List.not_mem_append (List.not_mem_append first fun member => ?_) last
  obtain ⟨dash, listed, inside⟩ := List.mem_flatten.mp member
  rw [List.eq_of_mem_replicate listed] at inside
  exact absurd inside (by decide)

theorem panel_unbroken {ls : List Bytes} (unbroken : Unbroken ls) : Unbroken (panel ls) := by
  have framed := unbroken.map (f := fun line => utf8 "│ " ++ padded (widest ls) line ++ utf8 " │")
    fun line one => List.not_mem_append (List.not_mem_append (by decide) (padded_one_line _ one))
      (by decide)
  have above : newline ∉ rule "╭" "╮" (widest ls + 2) := rule_one_line _ (by decide) (by decide)
  have below : newline ∉ rule "╰" "╯" (widest ls + 2) := rule_one_line _ (by decide) (by decide)
  exact .cons above (framed.append (.cons below .nil))

theorem sideBySide_unbroken {blocks : List Block} (unbroken : ∀ block ∈ blocks, Unbroken block) :
    Unbroken (sideBySide blocks) := by
  intro line member
  obtain ⟨row, -, rfl⟩ := List.mem_map.mp member
  intro inside
  obtain ⟨block, listed, within⟩ := List.mem_flatMap.mp inside
  refine padded_one_line (widest block) ?_ within
  cases found : block[row]? with
  | none => exact List.not_mem_nil
  | some part => exact unbroken block listed part (List.mem_of_getElem? found)

theorem render_unbroken (g : Grid) (image : Image) : Unbroken (render g image) := by
  intro line member
  obtain ⟨row, -, rfl⟩ := List.mem_map.mp member
  intro inside
  obtain ⟨column, -, cell⟩ := List.mem_flatMap.mp inside
  split at cell
  · exact absurd cell (by decide)
  · exact absurd cell (by decide)

theorem canvasPanel_unbroken (image : Image) : Unbroken (canvasPanel image) := by
  unfold canvasPanel
  split
  · exact panel_unbroken (.cons (by decide) .nil)
  · exact panel_unbroken (render_unbroken _ _)

theorem helpPanel_unbroken : Unbroken helpPanel := by
  refine panel_unbroken (.cons (by decide) fun line member => ?_)
  obtain ⟨⟨name, what⟩, listed, rfl⟩ := List.mem_map.mp member
  have rows : ∀ row ∈ helpRows, newline ∉ utf8 row.1 ∧ newline ∉ utf8 row.2 := by decide +kernel
  obtain ⟨first, second⟩ := rows _ listed
  have front := List.not_mem_append (by decide : newline ∉ utf8 "  ") (padded_one_line 12 first)
  exact List.not_mem_append (List.not_mem_append front (by decide)) second

theorem variableLine_one_line {name : Name} (one : newline ∉ name) (value : Float) :
    newline ∉ variableLine name value := by
  have number : newline ∉ space :: Number.text value :=
    List.not_mem_cons_of_ne_of_not_mem (by decide) (Number.text_one_line value)
  have quoted : newline ∉ doubleQuote :: name :=
    List.not_mem_cons_of_ne_of_not_mem (by decide) one
  exact List.not_mem_append (List.not_mem_append (by decide) quoted) number

theorem procedureLine_one_line {p : Procedure} (words : ∀ name ∈ p.coined, newline ∉ name) :
    newline ∉ procedureLine p := by
  refine List.not_mem_append (by decide) fun member => ?_
  rcases mem_joined_by member with between | ⟨part, listed, inside⟩
  · exact absurd between (by decide)
  rcases List.mem_cons.mp listed with rfl | param
  · exact words p.name List.mem_cons_self inside
  · obtain ⟨name, declared, rfl⟩ := List.mem_map.mp param
    have one := words name (List.mem_cons_of_mem _ (List.mem_append_left _ declared))
    exact absurd inside (List.not_mem_cons_of_ne_of_not_mem (by decide) one)

theorem bindingsPanel_unbroken {env : Environment} (speaks : env.Speaks (newline ∉ ·)) :
    Unbroken (bindingsPanel env) := by
  have globals : Unbroken (env.globals.names.filterMap
      fun name => (env.global? name).map (variableLine name)) := by
    intro line member
    obtain ⟨name, -, shown⟩ := List.mem_filterMap.mp member
    obtain ⟨value, found, rfl⟩ := Option.map_eq_some_iff.mp shown
    exact variableLine_one_line (speaks.globals _ (Table.mem_of_get? found)) value
  have procedures : Unbroken (env.procedureNames.filterMap
      fun name => (env.procedure? name).map procedureLine) := by
    intro line member
    obtain ⟨name, -, shown⟩ := List.mem_filterMap.mp member
    obtain ⟨p, found, rfl⟩ := Option.map_eq_some_iff.mp shown
    exact procedureLine_one_line (speaks.procedure found)
  unfold bindingsPanel
  split
  · exact panel_unbroken (.cons (by decide) .nil)
  · exact panel_unbroken (.cons (by decide) (globals.append (.cons (by decide) procedures)))

theorem led_unbroken {lead : Bytes} (one : newline ∉ lead) (text : Bytes) :
    Unbroken (match lines text with
      | [] => []
      | first :: rest => (lead ++ first) :: rest.map (utf8 "    " ++ ·)) := by
  have unbroken := Unbroken.lines text
  cases cut : lines text with
  | nil => exact .nil
  | cons first rest =>
    rw [cut] at unbroken
    obtain ⟨top, others⟩ := List.forall_mem_cons.mp unbroken
    exact .cons (List.not_mem_append one top)
      (Unbroken.map others fun line whole => List.not_mem_append (by decide) whole)

theorem entry_unbroken (e : Entry) : Unbroken e.lines := by
  have result : newline ∉ utf8 (if e.failed then "  ✗ " else "  → ") := by
    cases e.failed <;> decide
  unfold Entry.lines
  dsimp only
  split
  · exact Unbroken.append .nil (led_unbroken result e.output)
  · exact (led_unbroken (by decide) e.input).append (led_unbroken result e.output)

theorem Chapter.leaves_speaks {session : Session} (speaks : session.env.Speaks (newline ∉ ·))
    (chapter : Chapter) : (chapter.leaves session).env.Speaks (newline ∉ ·) := by
  cases chapter with
  | executed ls line =>
    exact Session.execWith_speaks _ _ _ (fun p accepted => coined_one_line accepted) speaks
  | command line =>
    rw [leaves, commanded]
    split
    · exact empty_speaks
    · exact speaks
  | dropped | blank => exact speaks

namespace State
variable {s : State}

theorem Conversation.speaks {random : Random.Stream} {log : List Said}
    (talk : s.Conversation random log) : s.session.env.Speaks (newline ∉ ·) := by
  obtain ⟨chapters, accounts⟩ := talk.accounts
  have fresh : (Session.start random).env.Speaks (newline ∉ ·) := empty_speaks
  rw [accounts.session]
  exact List.foldlRecOn chapters Chapter.leaves
    (motive := fun session => session.env.Speaks (newline ∉ ·)) fresh
    fun _ speaks chapter _ => chapter.leaves_speaks speaks

theorem title_one_line (s : State) : newline ∉ s.title := by
  have count : newline ∉ decimal s.session.turtle.trail.length :=
    fun member => absurd (decimal_digits _ newline member) (by decide)
  have pen : newline ∉ utf8 (if s.session.turtle.penDown then " segments, pen down"
      else " segments, pen up") := by
    cases s.session.turtle.penDown <;> decide
  exact List.not_mem_append (List.not_mem_append (by decide) count) pen

theorem transcriptLines_unbroken (s : State) : Unbroken s.transcriptLines := by
  intro line member
  obtain ⟨e, -, inside⟩ := List.mem_flatMap.mp member
  exact entry_unbroken e line inside

theorem blocks_unbroken (speaks : s.session.env.Speaks (newline ∉ ·)) :
    ∀ block ∈ s.blocks, Unbroken block := by
  intro block member
  rcases List.mem_append.mp member with others | help
  · rcases List.mem_append.mp others with canvas | bindings
    · split at canvas
      · obtain rfl := List.mem_singleton.mp canvas
        exact canvasPanel_unbroken _
      · exact absurd canvas List.not_mem_nil
    · split at bindings
      · obtain rfl := List.mem_singleton.mp bindings
        exact bindingsPanel_unbroken speaks
      · exact absurd bindings List.not_mem_nil
  · split at help
    · obtain rfl := List.mem_singleton.mp help
      exact helpPanel_unbroken
    · exact absurd help List.not_mem_nil

/-- The view is made of lines. -/
theorem view_unbroken (speaks : s.session.env.Speaks (newline ∉ ·)) (typed : s.Typed)
    {inputLine : Bytes} (one : newline ∉ inputLine) : Unbroken (s.view inputLine) := by
  have shown : ∀ n, Unbroken (lastLines n s.transcriptLines) := fun n line member =>
    s.transcriptLines_unbroken line (List.mem_of_mem_drop member)
  have pending : Unbroken (s.pending.map (Prompt.continued.text ++ ·)) := by
    refine Unbroken.map (fun line member => (typed.pending line member).one_line) ?_
    exact fun line whole => List.not_mem_append (by decide) whole
  have ending : Unbroken [inputLine, [], footer] :=
    .cons one (.cons List.not_mem_nil (.cons (by decide +kernel) .nil))
  unfold view
  split
  · exact .cons (by decide) (.cons (by decide) .nil)
  split
  · exact .cons (by decide) .nil
  · next w sized =>
    have top : Unbroken [s.title, []] := .cons s.title_one_line (.cons List.not_mem_nil .nil)
    exact (((top.append (shown _)).append (sideBySide_unbroken (blocks_unbroken speaks))).append
      pending).append ending

end State
end Console
end TurtleLogo
