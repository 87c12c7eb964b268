import TurtleLogo.Console.Canvas
import TurtleLogo.Console.Panel
import TurtleLogo.Console.State

/-!
What the console shows: a title, the end of the transcript, the panels, the lines that are
held back, the input line and the keys. The transcript gets the lines of the window that
the rest leaves to it.
-/
namespace TurtleLogo.Console
open Text

def Entry.lines (e : Entry) : List Bytes :=
  let entered := if e.input.isEmpty then [] else
    match Text.lines e.input with
    | [] => []
    | first :: rest => (utf8 "  › " ++ first) :: rest.map (utf8 "    " ++ ·)
  let mark := utf8 (if e.failed then "  ✗ " else "  → ")
  let result := match Text.lines e.output with
    | [] => []
    | first :: rest => (mark ++ first) :: rest.map (utf8 "    " ++ ·)
  entered ++ result

def canvasPanel (image : Image) : Block :=
  if image.segments.isEmpty then panel [utf8 "nothing drawn yet"] else panel (render ⟨48, 24⟩ image)

def variableLine (name : Name) (value : Float) : Bytes :=
  utf8 "  " ++ doubleQuote :: name ++ space :: Number.text value

def procedureLine (p : Procedure) : Bytes :=
  utf8 "  " ++ joined [space] (p.name :: p.params.map (byte ':' :: ·))

def bindingsPanel (env : Environment) : Block :=
  if env.globals.isEmpty && env.procedures.isEmpty then panel [utf8 "no variables or procedures"]
  else
    panel (utf8 "variables" ::
      env.globals.names.filterMap (fun name => (env.global? name).map (variableLine name)) ++
      utf8 "procedures" ::
      env.procedureNames.filterMap fun name => (env.procedure? name).map procedureLine)

def helpRows : List (String × String) :=
  [(":help", "toggle this panel"),
   (":vars", "toggle variables and procedures"),
   (":canvas", "toggle the drawing preview"),
   (":clear", "clear the transcript"),
   (":reset", "forget definitions, clear the canvas"),
   (":save [path]", "write the drawing as SVG"),
   (":quit", "leave"),
   ("tab", "complete keywords and procedures"),
   ("esc", "drop an unfinished multi-line entry")]

def helpPanel : Block :=
  panel (utf8 "help" :: helpRows.map fun (name, what) =>
    utf8 "  " ++ padded 12 (utf8 name) ++ utf8 "  " ++ utf8 what)

def footer : Bytes :=
  utf8 "ctrl+k help  ctrl+v vars  ctrl+g canvas  ctrl+l clear  ctrl+c quit"

namespace State

def title (s : State) : Bytes :=
  utf8 " logo " ++ decimal s.session.turtle.trail.length ++
    utf8 (if s.session.turtle.penDown then " segments, pen down" else " segments, pen up")

def blocks (s : State) : List Block :=
  (if s.panels.canvas then [canvasPanel s.session.turtle.image] else []) ++
  (if s.panels.bindings then [bindingsPanel s.session.env] else []) ++
  (if s.panels.help then [helpPanel] else [])

def panelBlock (s : State) : Block := sideBySide s.blocks

def transcriptLines (s : State) : List Bytes := s.transcript.flatMap Entry.lines

/-- The lines of the window that are left to the transcript. The panels count as one line even if
    there are none. -/
def budget (s : State) (w : Window) : Nat :=
  (Number.wrapped (w.height - 6 - max 1 (height s.panelBlock) - s.pending.length)).toNat

def lastLines (n : Nat) (lines : List Bytes) : List Bytes := lines.drop (lines.length - n)

/-- The lines that are shown, given how the input line is drawn. -/
def view (s : State) (inputLine : Bytes) : List Bytes :=
  if s.quitting then [utf8 "bye", utf8 "   "]
  else match s.window with
    | none => [utf8 "starting..."]
    | some w =>
      [s.title, []] ++ lastLines (s.budget w) s.transcriptLines ++ s.panelBlock ++
        s.pending.map (Prompt.continued.text ++ ·) ++ [inputLine, [], footer]

end State
end TurtleLogo.Console
