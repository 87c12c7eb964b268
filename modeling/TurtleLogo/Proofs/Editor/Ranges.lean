import TurtleLogo.Editor.Document
import TurtleLogo.Proofs.Parse.Faults
import TurtleLogo.Proofs.Program.Definitions

/-!
What the ranges of a document cover. Columns count runes and editors count UTF-16 units, so a range
is read back in the units of its line: they are those before the culprit or the name, those of the
culprit or the name itself, and those behind it, returns at the end of the line included.
-/
namespace TurtleLogo

namespace Text

def utf16 (r : Rune) : List Nat :=
  if 0x10000 ≤ r then [0xD800 + (r - 0x10000) / 0x400, 0xDC00 + (r - 0x10000) % 0x400] else [r]

def units (text : Bytes) : List Nat := (runes text).flatMap utf16

theorem utf16_length (r : Rune) : (utf16 r).length = unitWidth r := by
  unfold utf16 unitWidth
  split <;> rfl

theorem unitCount_eq (rs : List Rune) : unitCount rs = (rs.flatMap utf16).length := by
  have counted : ∀ n, rs.foldl (fun n r => n + unitWidth r) n = n + (rs.flatMap utf16).length := by
    induction rs with
    | nil => exact fun n => rfl
    | cons r rs ih =>
      intro n
      rw [List.foldl_cons, ih, List.flatMap_cons, List.length_append, utf16_length]
      omega
  rw [unitCount, counted, Nat.zero_add]

theorem Seam.units {front back : Bytes} (seam : Seam front back) :
    units (front ++ back) = Text.units front ++ Text.units back := by
  unfold Text.units
  rw [runes_append seam, List.flatMap_append]

theorem Seam.unitCount_take {front back : Bytes} (seam : Seam front back) :
    unitCount ((runes (front ++ back)).take (Text.runeCount front)) =
      (Text.units front).length := by
  have front_runes : (runes (front ++ back)).take (Text.runeCount front) = runes front := by
    rw [runes_append seam, Text.runeCount, ← List.length_map (f := Prod.fst),
      ← runes, List.take_left]
  rw [front_runes, unitCount_eq, Text.units]

theorem units_length_pos {text : Bytes} (nonempty : text ≠ []) : 0 < (units text).length := by
  obtain ⟨b, rest, rfl⟩ := List.exists_cons_of_ne_nil nonempty
  unfold units runes
  rw [runePieces_cons, List.map_cons, List.flatMap_cons, List.length_append, utf16_length]
  unfold unitWidth
  split <;> omega

end Text

namespace Editor
open Text

/-- The ends of the range are offsets of units into one line and cut out the text, which is there
    with the units of what is before it and behind it. -/
structure Document.CutsOut (d : Document) (range : Range) (text : Bytes) : Prop where
  oneLine : range.stop.line = range.start.line
  slice : ∃ before behind, d.lines[range.start.line]? = some (before ++ (text ++ behind)) ∧
    units (before ++ (text ++ behind)) = units before ++ (units text ++ units behind) ∧
    range.start.character = (units before).length ∧
    range.stop.character = range.start.character + (units text).length ∧
    ((units (before ++ (text ++ behind))).take range.stop.character).drop range.start.character =
      units text

namespace Document
variable {d : Document}

theorem placeBehind_of_line {line : Nat} {text : Bytes} (found : d.lines[line]? = some text)
    (count : Nat) :
    d.placeBehind line count = ⟨line, unitCount ((runes (withoutReturns text)).take count)⟩ := by
  rw [placeBehind, found]

/-- Places that fit into 64 bits are found by arithmetic that wraps around. -/
theorem span_eq_spanAt {p : Position} {width : Nat} (lines : p.line < Number.twoTo 63)
    (columns : p.column + max width 1 < Number.twoTo 63) :
    d.span p width = d.spanAt p.line p.column width := by
  have back : ∀ n : Nat, n < Number.twoTo 63 →
      (Number.wrapped ((n : Int) - 1)).toNat = n - 1 := by
    intro n small
    rw [Number.wrapped_eq (by omega) (by omega)]
    omega
  have wide : max (width : Int) 1 = (max width 1 : Nat) := by omega
  have stop : (p.column : Int) + (max width 1 : Nat) = (p.column + max width 1 : Nat) := by omega
  unfold spanAt placeAt
  rw [wide, stop, Number.wrapped_eq (i := (p.column + max width 1 : Nat)) (by omega) (by omega),
    back _ lines, back _ columns, back _ (Nat.lt_of_le_of_lt (Nat.le_add_right _ _) columns)]
  rfl

theorem span_of_inLine {source text before behind : Bytes} {p : Position}
    (lines : d.lines = Text.lines source) (inLine : InLine source p text before behind)
    (word : Word text) : d.span p (runeCount text) =
      ⟨⟨p.line - 1, (units before).length⟩,
        ⟨p.line - 1, (units before).length + (units text).length⟩⟩ := by
  obtain ⟨shown, front, back⟩ := inLine.shown word
  have line : d.lines[p.line - 1]? = some (before ++ (text ++ behind)) := by
    rw [lines]
    exact inLine.line
  have wide := runeCount_pos word.1
  have long := units_length_pos word.1
  have whole : Seam (before ++ text) (withoutReturns behind) := front.append back
  obtain ⟨inner, -⟩ := front.between whole
  have start : d.place p = ⟨p.line - 1, (units before).length⟩ := by
    have first : p.column - 1 = runeCount before := by
      have column := inLine.column
      omega
    rw [place, placeBehind_of_line line, shown, first, front.unitCount_take]
  have stop : d.place { p with column := p.column + max (runeCount text) 1 } =
      ⟨p.line - 1, (units before).length + (units text).length⟩ := by
    have last : p.column + max (runeCount text) 1 - 1 = runeCount (before ++ text) := by
      have column := inLine.column
      rw [inner.runeCount]
      omega
    rw [place, placeBehind_of_line line, shown, last, ← List.append_assoc, whole.unitCount_take,
      inner.units, List.length_append]
  rw [span, start, stop, Range.widened, if_neg]
  simp only [beq_iff_eq]
  omega

theorem span_cutsOut {source text before behind : Bytes} {p : Position}
    (lines : d.lines = Text.lines source) (inLine : InLine source p text before behind)
    (word : Word text) : d.CutsOut (d.span p (runeCount text)) text := by
  have line : d.lines[p.line - 1]? = some (before ++ (text ++ behind)) := by
    rw [lines]
    exact inLine.line
  have parts : units (before ++ (text ++ behind)) =
      units before ++ (units text ++ units behind) := by
    rw [inLine.front.units, inLine.back.units]
  rw [span_of_inLine lines inLine word]
  refine ⟨rfl, before, behind, line, parts, rfl, rfl, ?_⟩
  rw [parts, ← List.append_assoc, ← List.length_append, List.take_left, List.drop_left]

/-- The range is one unit wide, and starts where the last line ends or the returns at its end
    begin. -/
def Ends (d : Document) (range : Range) : Prop :=
  ∃ last, d.lines.getLast? = some last ∧
    range.start = ⟨d.lines.length - 1, (units (withoutReturns last)).length⟩ ∧
    range.stop = ⟨d.lines.length - 1, (units (withoutReturns last)).length + 1⟩

theorem place_behind_line {line : Bytes} {p : Position} (found : d.lines[p.line - 1]? = some line)
    (behind : runeCount (withoutReturns line) ≤ p.column - 1) :
    d.place p = ⟨p.line - 1, (units (withoutReturns line)).length⟩ := by
  have whole : (runes (withoutReturns line)).take (p.column - 1) = runes (withoutReturns line) := by
    refine List.take_of_length_le ?_
    rwa [runes, List.length_map]
  rw [place, placeBehind_of_line found, whole, unitCount_eq, units]

theorem span_ends {source : Bytes} (lines : d.lines = Text.lines source) :
    d.Ends (d.span (tokenize source).finish 0) := by
  obtain ⟨line, column⟩ := finish_inLine source
  have last : d.lines.getLast? = some (lastLine source) := by
    rw [lines, getLast_lines]
  have index : (tokenize source).finish.line - 1 = d.lines.length - 1 := by
    rw [line, lines]
  have found : d.lines[(tokenize source).finish.line - 1]? = some (lastLine source) := by
    rw [index, ← List.getLast?_eq_getElem?, last]
  have bound : runeCount (withoutReturns (lastLine source)) ≤ runeCount (lastLine source) := by
    obtain ⟨returns, parts, cut⟩ := withoutReturns_split (lastLine source)
    have size := (cut (withoutReturns (lastLine source))).runeCount
    rw [← parts] at size
    omega
  have start : d.place (tokenize source).finish =
      ⟨d.lines.length - 1, (units (withoutReturns (lastLine source))).length⟩ := by
    rw [← index]
    exact place_behind_line found (by omega)
  have stop : d.place { (tokenize source).finish with
      column := (tokenize source).finish.column + max 0 1 } =
      ⟨d.lines.length - 1, (units (withoutReturns (lastLine source))).length⟩ := by
    rw [← index]
    exact place_behind_line found (by simp only; omega)
  have range : d.span (tokenize source).finish 0 =
      ⟨⟨d.lines.length - 1, (units (withoutReturns (lastLine source))).length⟩,
        ⟨d.lines.length - 1, (units (withoutReturns (lastLine source))).length + 1⟩⟩ := by
    rw [span, start, stop, Range.widened, if_pos (beq_self_eq_true _)]
  rw [range]
  exact ⟨_, last, rfl, rfl⟩

theorem place_line (p : Position) : (d.place p).line = p.line - 1 := by
  unfold place placeBehind
  split <;> rfl

def faults (d : Document) : List Fault :=
  match d.program with
  | .ok _ => []
  | .error e => e.faults

def errors (d : Document) : List Diagnostic := d.diagnostics.filter (·.severity == .error)

/-- The diagnostic says what is wrong, and its range is the culprit or the end of the text. -/
structure Reports (d : Document) (f : Fault) (g : Diagnostic) : Prop where
  severity : g.severity = .error
  message : g.message = f.detail
  culprit : f.tokenKind? ≠ some .eof →
    0 < f.pos.line ∧ g.range.start.line = f.pos.line - 1 ∧ d.CutsOut g.range f.culprit
  ending : f.tokenKind? = some .eof → d.Ends g.range

theorem reports_of_found {text : Bytes} {f : Fault} (found : f.FoundIn text) :
    (ofText text).Reports f
      ⟨(ofText text).span f.pos (runeCount f.culprit), .error, f.detail⟩ := by
  refine ⟨rfl, rfl, ?_, ?_⟩
  · intro inside
    obtain ⟨word, before, behind, inLine⟩ := f.inLine found inside
    exact ⟨inLine.counted, place_line f.pos, span_cutsOut rfl inLine word⟩
  · intro ending
    obtain ⟨nothing, finish⟩ := f.at_finish found ending
    rw [nothing, finish]
    exact span_ends rfl

theorem errors_report (text : Bytes) :
    List.Forall₂ (ofText text).Reports (ofText text).faults (ofText text).errors := by
  cases compiled : parse text with
  | ok p =>
    have clean : (ofText text).errors = [] := by
      simp [errors, diagnostics, ofText, compiled]
    have faultless : (ofText text).faults = [] := by
      simp [faults, ofText, compiled]
    rw [clean, faultless]
    exact .nil
  | error e =>
    have all : (ofText text).errors = e.faults.map fun f =>
        ⟨(ofText text).span f.pos (runeCount f.culprit), .error, f.detail⟩ := by
      simp [errors, diagnostics, ofText, compiled]
    have faults : (ofText text).faults = e.faults := by
      simp [faults, ofText, compiled]
    rw [all, faults, List.forall₂_map_right_iff, List.forall₂_same]
    intro f member
    exact reports_of_found (Fault.found_of_mem compiled f member)

end Document

namespace Document
variable {text : Bytes}

theorem token_cutsOut {t : Token} (member : t ∈ (tokenize text).tokens) :
    (ofText text).CutsOut ((ofText text).span t.pos (runeCount t.literal)) t.literal := by
  obtain ⟨word, before, behind, inLine⟩ := token_inLine member
  exact span_cutsOut rfl inLine word

theorem name_cutsOut {name : Name} {p : Position}
    (stands : Lexeme.StandsIn ⟨.identifier, .text name, some p⟩ text) :
    (ofText text).CutsOut ((ofText text).span p (runeCount name)) name := by
  obtain ⟨t, member, ⟨-, literal⟩, pos⟩ := stands
  have cuts := token_cutsOut member
  rwa [literal, pos p rfl] at cuts

theorem make_cutsOut {p : Position} (stands : (Lexeme.opening .make p).StandsIn text) :
    (ofText text).CutsOut ((ofText text).span p 4) (utf8 "make") := by
  obtain ⟨t, member, ⟨kind, -⟩, pos⟩ := stands
  have cuts := token_cutsOut member
  have wide : runeCount (utf8 "make") = 4 := by decide
  rwa [make_spelled member kind, pos p rfl, wide] at cuts

end Document

namespace Symbol

def selection : Symbol → Range
  | function _ _ _ selection _ => selection
  | global _ range => range

def selected : Symbol → Bytes
  | function name .. => name
  | global .. => utf8 "make"

end Symbol

mutual

def Symbol.withNested : Symbol → List Symbol
  | .function name detail range selection children =>
    .function name detail range selection children :: allNested children
  | .global name range => [.global name range]

def allNested : List Symbol → List Symbol
  | [] => []
  | y :: rest => y.withNested ++ allNested rest

end

theorem allNested_append (ys zs : List Symbol) :
    allNested (ys ++ zs) = allNested ys ++ allNested zs := by
  induction ys with
  | nil => rfl
  | cons y ys ih => rw [List.cons_append, allNested, ih, allNested, List.append_assoc]

namespace Document
variable {text : Bytes}

mutual

theorem stmt_symbols_exact (top : Bool) : ∀ (seen : List Name) (s : Stmt),
    (∀ x ∈ s.lexemes, x.StandsIn text) →
    ∀ y ∈ allNested ((ofText text).symbolsOfStmt top seen s).1,
      (ofText text).CutsOut y.selection y.selected
  | seen, .define pos name namePos params body, stand => by
    intro y member
    rcases List.mem_append.mp member with self | elsewhere
    · rcases List.mem_cons.mp self with rfl | inside
      · exact name_cutsOut (stand _ (by simp [Stmt.lexemes]))
      · refine symbols_exact false seen body (fun x listed => stand x ?_) y inside
        simp [Stmt.lexemes, listed]
    · exact absurd elsewhere List.not_mem_nil
  | seen, .make pos name value, stand => by
    intro y member
    unfold symbolsOfStmt at member
    split at member
    · obtain rfl := List.mem_singleton.mp member
      exact make_cutsOut (stand _ (by simp [Stmt.lexemes]))
    · exact absurd member List.not_mem_nil
  | seen, .loop pos count body, stand => by
    refine symbols_exact top seen body fun x listed => stand x ?_
    simp [Stmt.lexemes, listed]
  | seen, .test pos left op right body, stand => by
    refine symbols_exact top seen body fun x listed => stand x ?_
    simp [Stmt.lexemes, listed]
  | _, .loopCall .., _ | _, .pen .., _ | _, .move .., _ | _, .turn .., _ | _, .home .., _
  | _, .setXY .., _ | _, .setHeading .., _ | _, .call .., _ | _, .stop .., _ | _, .output .., _ =>
    fun _ member => absurd member List.not_mem_nil

theorem symbols_exact (top : Bool) : ∀ (seen : List Name) (ss : List Stmt),
    (∀ x ∈ lexemesOf ss, x.StandsIn text) →
    ∀ y ∈ allNested ((ofText text).symbolsOf top seen ss).1,
      (ofText text).CutsOut y.selection y.selected
  | _, [], _ => fun _ member => absurd member List.not_mem_nil
  | seen, s :: rest, stand => by
    intro y member
    unfold symbolsOf at member
    simp only [allNested_append] at member
    rcases List.mem_append.mp member with first | later
    · exact stmt_symbols_exact top seen s
        (fun x listed => stand x (List.mem_append_left _ listed)) y first
    · exact symbols_exact top _ rest
        (fun x listed => stand x (List.mem_append_right _ listed)) y later

end

theorem statements_stand (text : Bytes) :
    ∀ x ∈ lexemesOf (ofText text).statements, x.StandsIn text := by
  cases compiled : parse text with
  | ok p =>
    have read : (ofText text).statements = p.statements := by
      simp [statements, ofText, compiled]
    rw [read]
    exact lexemes_stand compiled
  | error e =>
    have unread : (ofText text).statements = [] := by
      simp [statements, ofText, compiled]
    rw [unread]
    exact fun x member => absurd member List.not_mem_nil

theorem definition_cutsOut {line character : Int} {range : Range}
    (found : (ofText text).definitionAt? line character = some range) :
    ∃ word touched, (ofText text).wordAt line character = some (word, touched) ∧
      (∃ q ∈ (ofText text).definitions, q.name = word) ∧ (ofText text).CutsOut range word := by
  unfold definitionAt? at found
  obtain ⟨⟨word, touched⟩, here, found⟩ := Option.bind_eq_some_iff.mp found
  obtain ⟨q, first, found⟩ := Option.bind_eq_some_iff.mp found
  obtain rfl := Option.some.inj found
  have defined : q ∈ (ofText text).definitions := List.mem_of_find?_eq_some first
  have named : q.name = word := by
    simpa using List.find?_some first
  subst named
  refine ⟨_, touched, here, ⟨q, defined, rfl⟩, name_cutsOut ?_⟩
  exact statements_stand text _ (names_stand _ q defined)

end Document

open Document

/-- Ranges are read back from the text. Each fault of the text is reported once, in order, and its
    range is the culprit, or one unit where the last line ends. The range of a definition is the
    name under the cursor, and the selection of a symbol is the name of the procedure or, for a
    variable, the word that assigns it. -/
theorem ranges_cut_out_their_words (text : Bytes) :
    List.Forall₂ (ofText text).Reports (ofText text).faults (ofText text).errors ∧
    (ofText text).errors.length = (ofText text).faults.length ∧
    (∀ line character range, (ofText text).definitionAt? line character = some range →
      ∃ word touched, (ofText text).wordAt line character = some (word, touched) ∧
        (∃ q ∈ (ofText text).definitions, q.name = word) ∧ (ofText text).CutsOut range word) ∧
    ∀ y ∈ allNested (ofText text).symbols, (ofText text).CutsOut y.selection y.selected := by
  have reports := errors_report text
  refine ⟨reports, reports.length_eq.symm, ?_, ?_⟩
  · intro line character range found
    exact definition_cutsOut found
  · exact symbols_exact true [] (ofText text).statements (statements_stand text)

def wideText : Bytes := utf8 "; é\r\nfd 😀 1 😀" ++ [0xFF, 13]

def wideRuns : List Fault :=
  [.lex ⟨⟨9, 2, 4⟩, [0xF0, 0x9F, 0x98, 0x80]⟩, .lex ⟨⟨16, 2, 8⟩, [0xF0, 0x9F, 0x98, 0x80, 0xFF]⟩]

def brokenOff : Fault := .parse ⟨⟨.eof, [], ⟨14, 1, 15⟩⟩, .expected (.kind .rightBracket)⟩

theorem ranges_cut_out_their_words_of_wide_runes :
    ((ofText wideText).faults = wideRuns ∧
      (ofText wideText).CutsOut ⟨⟨1, 8⟩, ⟨1, 11⟩⟩ [0xF0, 0x9F, 0x98, 0x80, 0xFF]) ∧
    ((ofText (utf8 "repeat 2 [ pu\r")).faults = [brokenOff] ∧
      (ofText (utf8 "repeat 2 [ pu\r")).Ends ⟨⟨0, 13⟩, ⟨0, 14⟩⟩) ∧
    ((ofText (utf8 "to leaf\r\nend\r\nleaf\r")).definitionAt? 2 4 = some ⟨⟨0, 3⟩, ⟨0, 7⟩⟩ ∧
      ∃ word touched,
        (ofText (utf8 "to leaf\r\nend\r\nleaf\r")).wordAt 2 4 = some (word, touched) ∧
        (ofText (utf8 "to leaf\r\nend\r\nleaf\r")).CutsOut ⟨⟨0, 3⟩, ⟨0, 7⟩⟩ word) := by
  obtain ⟨runs, marks⟩ : (ofText wideText).faults = wideRuns ∧ (ofText wideText).errors =
      [⟨⟨⟨1, 3⟩, ⟨1, 5⟩⟩, .error, utf8 "unexpected input \"😀\""⟩,
        ⟨⟨⟨1, 8⟩, ⟨1, 11⟩⟩, .error, utf8 "unexpected input \"😀\\xff\""⟩] := by decide +kernel
  obtain ⟨unclosed, mark⟩ : (ofText (utf8 "repeat 2 [ pu\r")).faults = [brokenOff] ∧
      (ofText (utf8 "repeat 2 [ pu\r")).errors =
        [⟨⟨⟨0, 13⟩, ⟨0, 14⟩⟩, .error, brokenOff.detail⟩] := by decide +kernel
  have found : (ofText (utf8 "to leaf\r\nend\r\nleaf\r")).definitionAt? 2 4 =
      some ⟨⟨0, 3⟩, ⟨0, 7⟩⟩ := by decide +kernel
  have wide := (ranges_cut_out_their_words wideText).1
  have ended := (ranges_cut_out_their_words (utf8 "repeat 2 [ pu\r")).1
  rw [runs, marks] at wide
  rw [unclosed, mark] at ended
  obtain _ | ⟨-, _ | ⟨second, -⟩⟩ := wide
  obtain _ | ⟨last, -⟩ := ended
  obtain ⟨word, touched, here, -, cuts⟩ := (ranges_cut_out_their_words _).2.2.1 _ _ _ found
  obtain ⟨-, -, run⟩ := second.culprit nofun
  exact ⟨⟨runs, run⟩, ⟨unclosed, last.ending rfl⟩, found, word, touched, here, cuts⟩

set_option maxRecDepth 10000 in
/-- The selection of a variable is no procedure's name. -/
theorem variable_selects_its_assignment :
    (∃ p, parse (utf8 "make \"x \"x") = .ok p) ∧
      ¬ ∀ y ∈ (ofText (utf8 "make \"x \"x")).symbols,
        ∃ q ∈ (ofText (utf8 "make \"x \"x")).definitions,
          (ofText (utf8 "make \"x \"x")).CutsOut y.selection q.name := by
  refine ⟨⟨_, rfl⟩, fun all => ?_⟩
  have listed : Symbol.global (utf8 "\"x") ⟨⟨0, 0⟩, ⟨0, 4⟩⟩ ∈
      (ofText (utf8 "make \"x \"x")).symbols := List.mem_singleton.mpr rfl
  obtain ⟨q, member, -⟩ := all _ listed
  exact absurd member List.not_mem_nil

end Editor
end TurtleLogo
