import TurtleLogo.Lint
import TurtleLogo.Parse
import TurtleLogo.Text.Letter

/-!
Documents open in an editor: diagnostics, the word under the cursor, where procedures are
defined, what the document defines, and what can be typed next. Editors count lines from
zero, and characters within a line in UTF-16 code units.
-/
namespace TurtleLogo.Editor
open Text

structure Place where
  line : Nat
  character : Nat
  deriving DecidableEq, Repr

structure Range where
  start : Place
  stop : Place
  deriving DecidableEq, Repr

def Range.widened (start stop : Place) : Range :=
  ⟨start, if stop.character == start.character then ⟨stop.line, stop.character + 1⟩ else stop⟩

structure Document where
  lines : List Bytes
  program : Except CompileError Program

def Document.ofText (text : Bytes) : Document := ⟨Text.lines text, parse text⟩

inductive Severity where
  | error | warning
  deriving DecidableEq, Repr

structure Diagnostic where
  range : Range
  severity : Severity
  message : Bytes
  deriving DecidableEq, Repr

structure Hover where
  text : Bytes
  range : Range
  deriving DecidableEq, Repr

inductive CompletionKind where
  | keyword | function
  deriving DecidableEq, Repr

structure Completion where
  label : Bytes
  kind : CompletionKind
  detail : Bytes
  deriving DecidableEq, Repr

/-- What a document defines: procedures, with those nested in their bodies, and variables. -/
inductive Symbol where
  | function (name detail : Bytes) (range selection : Range) (children : List Symbol)
  | global (name : Bytes) (range : Range)

def keywordDoc? (word : Bytes) : Option String :=
  [("to", "`to name :param ...` starts a procedure definition ending at `end`."),
   ("end", "Closes a procedure definition."),
   ("make", "`make \"name value` sets a global variable."),
   ("repeat",
    "`repeat n [ ... ]` runs a block n times; `repeat n name` calls a procedure n times."),
   ("if", "`if a op b [ ... ]` runs the block when the comparison (=, !=, >, <) holds."),
   ("stop", "Leaves the current procedure."),
   ("output", "`output value` leaves the current procedure and returns value."),
   ("home", "Moves the turtle back to the centre of the canvas."),
   ("setxy",
    "`setxy x y` moves to a position relative to the canvas centre. Operands are read " ++
      "greedily, so a negative y needs parentheses: `setxy 10 (-20)`."),
   ("setheading", "`setheading degrees` points the turtle at an absolute heading."),
   ("seth", "Short for setheading."),
   ("random", "`random n` is a whole number from 0 up to but not including n."),
   ("forward", "`forward distance` moves ahead, drawing when the pen is down."),
   ("fd", "Short for forward."),
   ("back", "`back distance` moves backwards, drawing when the pen is down."),
   ("bk", "Short for back."),
   ("left", "`left degrees` turns anticlockwise."),
   ("lt", "Short for left."),
   ("right", "`right degrees` turns clockwise."),
   ("rt", "Short for right."),
   ("penup", "Lifts the pen so moves stop drawing."),
   ("pu", "Short for penup."),
   ("pendown", "Lowers the pen so moves draw."),
   ("pd", "Short for pendown.")].findSome? fun (keyword, doc) =>
    if utf8 keyword == word then some doc else none

def isWordAt (rs : List Rune) (i : Nat) : Bool := (rs[i]?).any isWordRune

def touched? (rs : List Rune) (cursor : Nat) : Option Nat :=
  if isWordAt rs cursor then some cursor
  else if 0 < cursor && isWordAt rs (cursor - 1) then some (cursor - 1)
  else none

def wordAround (line : Nat) (rs : List Rune) (i : Nat) : Bytes × Range :=
  let start := i - ((rs.take i).reverse.takeWhile isWordRune).length
  let stop := i + ((rs.drop i).takeWhile isWordRune).length
  (ofRunes ((rs.take stop).drop start),
    ⟨⟨line, unitCount (rs.take start)⟩, ⟨line, unitCount (rs.take stop)⟩⟩)

namespace Document

/-- The place behind a number of runes of a line, cut back to the line's end. A line beyond the
    document has its first place only. -/
def placeBehind (d : Document) (line count : Nat) : Place :=
  match d.lines[line]? with
  | none => ⟨line, 0⟩
  | some text => ⟨line, unitCount ((runes (withoutReturns text)).take count)⟩

def place (d : Document) (p : Position) : Place := d.placeBehind (p.line - 1) (p.column - 1)

def span (d : Document) (p : Position) (width : Nat) : Range :=
  .widened (d.place p) (d.place { p with column := p.column + max width 1 })

/-- The place of any two numbers. Arithmetic is that of 64-bit numbers. -/
def placeAt (d : Document) (line column : Int) : Place :=
  d.placeBehind (Number.wrapped (line - 1)).toNat (Number.wrapped (column - 1)).toNat

def spanAt (d : Document) (line column width : Int) : Range :=
  .widened (d.placeAt line column) (d.placeAt line (Number.wrapped (column + max width 1)))

def diagnostics (d : Document) : List Diagnostic :=
  match d.program with
  | .ok p => p.warnings.map fun w => ⟨d.span w.pos 1, .warning, w.complaint.message⟩
  | .error e => e.faults.map fun f => ⟨d.span f.pos (runeCount f.culprit), .error, f.detail⟩

def statements (d : Document) : List Stmt :=
  match d.program with
  | .ok p => p.statements
  | .error _ => []

def definitions (d : Document) : List Definition := definitionsOf d.statements

def lineRunes? (d : Document) (line : Int) : Option (List Rune) :=
  if line < 0 then none
  else d.lines[line.toNat]?.map fun text => runes (withoutReturns text)

/-- The word that touches the cursor, and its range. Where the cursor stands between two words the
    one behind it is meant. -/
def wordAt (d : Document) (line character : Int) : Option (Bytes × Range) :=
  (d.lineRunes? line).bind fun rs =>
    (touched? rs (indexOfUnit rs character.toNat)).map (wordAround line.toNat rs)

def hover? (d : Document) (line character : Int) : Option Hover :=
  (d.wordAt line character).map fun (word, range) =>
    let text :=
      match keywordDoc? word with
      | some doc => utf8 "`" ++ word ++ utf8 "` keyword\n\n" ++ utf8 doc
      | none =>
        match definition? d.definitions word with
        | some found =>
          utf8 "`" ++ signature found.name found.params ++ utf8 "`\n\nprocedure defined at line " ++
            decimal found.pos.line
        | none => utf8 "`" ++ word ++ utf8 "`\n\nLogo symbol"
    ⟨text, range⟩

def definitionAt? (d : Document) (line character : Int) : Option Range := do
  let (word, _) ← d.wordAt line character
  let found ← definition? d.definitions word
  return d.span found.namePos (runeCount found.name)

def keywordCompletion (word : Bytes) : Completion := ⟨word, .keyword, utf8 "keyword"⟩

def procedureCompletion (p : Definition) : Completion :=
  ⟨p.name, .function, signature p.name p.params⟩

def completions (d : Document) : List Completion :=
  let procedures := d.definitions.filter fun p => definition? d.definitions p.name == some p
  (keywords.map keywordCompletion ++ procedures.map procedureCompletion).mergeSort
    fun a b => !before b.label a.label

mutual

/-- The symbols of a statement, given the variables already listed, and those listed behind it.
    Variables count outside procedures only, and once. -/
def symbolsOfStmt (d : Document) (top : Bool) (seen : List Name) : Stmt → List Symbol × List Name
  | .define pos name namePos params body =>
    let selection := d.span namePos (runeCount name)
    let (children, seen) := symbolsOf d false seen body
    let range : Range := ⟨d.place pos, selection.stop⟩
    ([.function name (signature name params) range selection children], seen)
  | .make pos name _ =>
    if top && !seen.contains name then
      ([.global (doubleQuote :: name) (d.span pos 4)], name :: seen)
    else ([], seen)
  | .loop _ _ body => symbolsOf d top seen body
  | .test _ _ _ _ body => symbolsOf d top seen body
  | _ => ([], seen)

def symbolsOf (d : Document) (top : Bool) (seen : List Name) : List Stmt → List Symbol × List Name
  | [] => ([], seen)
  | s :: rest =>
    let (first, seen) := symbolsOfStmt d top seen s
    let (others, seen) := symbolsOf d top seen rest
    (first ++ others, seen)

end

def symbols (d : Document) : List Symbol := (d.symbolsOf true [] d.statements).1

end Document
end TurtleLogo.Editor
