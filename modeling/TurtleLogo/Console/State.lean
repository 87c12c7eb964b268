import TurtleLogo.Console.Line
import TurtleLogo.Files
import TurtleLogo.Session

/-!
The console: a session that is fed line by line. Lines that leave a bracket or a procedure
open are held back until the line that closes it arrives, and then run as one program.
Lines that begin with a colon are commands to the console itself.
-/
namespace TurtleLogo.Console
open Text Files

structure Entry where
  input : Bytes
  output : Bytes
  failed : Bool
  deriving DecidableEq, Repr

inductive Prompt where
  | fresh
  | continued
  deriving DecidableEq, Repr

def Prompt.text : Prompt → Bytes
  | fresh => utf8 "logo> "
  | continued => utf8 "  ... "

structure Window where
  width : Int
  height : Int
  deriving DecidableEq, Repr

structure Panels where
  help : Bool
  bindings : Bool
  canvas : Bool
  deriving DecidableEq, Repr

/-- Nothing can be shown before the size of the window is known. `recalled` is the entry of the
    history that is in the input line, if one is. -/
structure State where
  input : Line
  prompt : Prompt
  session : Session
  transcript : List Entry
  history : List Bytes
  recalled : Option Nat
  pending : List Bytes
  window : Option Window
  panels : Panels
  quitting : Bool

inductive Key where
  | up | down | enter | escape | tab | quit | clear | bindings | help | canvas
  deriving DecidableEq, Repr

def Key.names : List (String × Key) :=
  [("up", up), ("down", down), ("enter", enter), ("esc", escape), ("tab", tab), ("ctrl+c", quit),
   ("ctrl+d", quit), ("ctrl+l", clear), ("ctrl+v", bindings), ("ctrl+k", help),
   ("ctrl+g", canvas)]

def Key.named? (text : Bytes) : Option Key :=
  names.findSome? fun (name, key) => if utf8 name == text then some key else none

inductive Action where
  | setInput (text : Bytes)
  | type (text : Bytes)
  | press (key : Key)
  | resize (width height : Int)
  deriving DecidableEq, Repr

/-- The state after an action, and whether the console is to be left. -/
structure Step where
  state : State
  quits : Bool

namespace State

def start (random : Random.Stream) : State where
  input := Line.empty
  prompt := .fresh
  session := Session.start random
  transcript := []
  history := []
  recalled := none
  pending := []
  window := none
  panels := ⟨false, false, false⟩
  quitting := false

def stay (s : State) : Step := ⟨s, false⟩

def quit (s : State) : Step := ⟨{ s with quitting := true }, true⟩

def toggleHelp (s : State) : State := { s with panels := { s.panels with help := !s.panels.help } }

def toggleBindings (s : State) : State :=
  { s with panels := { s.panels with bindings := !s.panels.bindings } }

def toggleCanvas (s : State) : State :=
  { s with panels := { s.panels with canvas := !s.panels.canvas } }

def clear (s : State) : State := { s with transcript := [] }

def note (s : State) (entry : Entry) : State := { s with transcript := s.transcript ++ [entry] }

def whereabouts (t : Turtle) : Bytes :=
  utf8 "turtle at " ++ Number.hundredths (t.x - originX) ++ utf8 ", " ++
    Number.hundredths (t.y - originY) ++ utf8 " heading " ++ Number.hundredths t.heading

def changes (before after : Session) : Bytes :=
  let known := before.env.procedureNames
  let defined := after.env.procedureNames.filter fun name => !known.contains name
  let drawn := after.turtle.trail.length - before.turtle.trail.length
  joined (utf8 ", ")
    (defined.map (utf8 "defined " ++ ·) ++
      (if 0 < drawn then [utf8 "drew " ++ decimal drawn ++ utf8 " segments"] else []) ++
      [whereabouts after.turtle])

def complaint (before after : Session) (failure : Failure) : Bytes :=
  let drawn := after.turtle.trail.length - before.turtle.trail.length
  failure.message ++
    if 0 < drawn then utf8 "\n(" ++ decimal drawn ++ utf8 " segments drawn before the error)"
    else []

def execute (s : State) (source : Bytes) : State :=
  let ran := s.session.exec Limits.none false source
  let entry : Entry := match ran.failure with
    | some failure => ⟨source, complaint s.session ran.session failure, true⟩
    | none => ⟨source, changes s.session ran.session, false⟩
  { s with session := ran.session, history := s.history ++ [source] }.note entry

def enterLine (s : State) (line : Bytes) : State :=
  let lines := s.pending ++ [line]
  let source := joined [newline] lines
  if 0 < openDepth source then { s with pending := lines, prompt := .continued }
  else { s with pending := [], prompt := .fresh }.execute source

def save (s : State) (line : Bytes) (path : Path) : Plan State := do
  let image := s.session.turtle.image
  match ← Plan.writeFile path image.svg with
  | .error e => return s.note ⟨line, utf8 "create output: " ++ e.message, true⟩
  | .ok _ =>
    let count := decimal image.segments.length
    return s.note ⟨line, utf8 "saved " ++ count ++ utf8 " segments to " ++ path, false⟩

def isNamed (command : Bytes) (long short : String) : Bool :=
  command == utf8 long || command == utf8 short

def perform (s : State) (line : Bytes) : Plan Step :=
  let command := (words line).headD []
  if isNamed command ":quit" ":q" then return s.quit
  else if isNamed command ":help" ":h" then return s.toggleHelp.stay
  else if isNamed command ":vars" ":v" then return s.toggleBindings.stay
  else if isNamed command ":canvas" ":g" then return s.toggleCanvas.stay
  else if isNamed command ":clear" ":c" then return s.clear.stay
  else if isNamed command ":reset" ":r" then
    return ({ s with session := s.session.reset }.note ⟨line, utf8 "session reset", false⟩).stay
  else if isNamed command ":save" ":s" then
    return (← s.save line (((words line)[1]?).getD Image.defaultPath)).stay
  else
    let text := utf8 "unknown command " ++ command ++ utf8 " (try :help)"
    return (s.note ⟨line, text, true⟩).stay

/-- Enters the input line. While a program is unfinished every line belongs to it. -/
def submit (s : State) : Plan Step :=
  let line := trim s.input.text
  let s := { s with input := s.input.set [], recalled := none }
  if s.pending.isEmpty && line.isEmpty then return s.stay
  else if s.pending.isEmpty && line.head? == some (byte ':') then s.perform line
  else return (s.enterLine line).stay

def dropPending (s : State) : State :=
  if s.pending.isEmpty then s
  else { s with pending := [], prompt := .fresh, input := s.input.set [] }

def recallAt (s : State) (index : Nat) : State :=
  match s.history[index]? with
  | some source => { s with recalled := some index, input := (s.input.set source).toEnd }
  | none => { s with recalled := none, input := s.input.set [] }

def recallOlder (s : State) : State :=
  if s.history.isEmpty then s
  else match s.recalled with
    | none => s.recallAt (s.history.length - 1)
    | some index => s.recallAt (index - 1)

def recallNewer (s : State) : State :=
  match s.recalled with
  | none => s
  | some index => s.recallAt (index + 1)

/-- The keywords and procedures that begin with a text, in order, or where none does those that
    resemble it, the nearest first. -/
def candidates (s : State) (text : Bytes) : List Bytes :=
  let names := keywords ++ s.session.env.procedureNames
  match (names.filter text.isPrefixOf).eraseDups with
  | [] => (Similar.ranked text names).eraseDups
  | matching => sorted matching

def lastWord (input : Bytes) : Bytes :=
  (((words input).getLast?).getD []).dropWhile fun b => b == byte '[' || b == byte '('

def withoutEnding (ending text : Bytes) : Bytes :=
  if ending.isSuffixOf text then text.take (text.length - ending.length) else text

def complete (s : State) : State :=
  let text := s.input.text
  let word := lastWord text
  if text.getLast? == some space || word.isEmpty then s
  else match s.candidates word with
    | [] => s
    | [only] => { s with input := (s.input.set (withoutEnding word text ++ only)).toEnd }
    | several => s.note ⟨[], utf8 "completions: " ++ joined (utf8 ", ") several, false⟩

def press (s : State) : Key → Plan Step
  | .quit => return s.quit
  | .clear => return s.clear.stay
  | .bindings => return s.toggleBindings.stay
  | .help => return s.toggleHelp.stay
  | .canvas => return s.toggleCanvas.stay
  | .escape => return s.dropPending.stay
  | .up => return s.recallOlder.stay
  | .down => return s.recallNewer.stay
  | .tab => return s.complete.stay
  | .enter => s.submit

/-- What an action does. A text that names a key, typed in one go, counts as that key. Only a
    command of the console touches files. -/
def act (s : State) : Action → Plan Step
  | .setInput text => return ({ s with input := s.input.set text }).stay
  | .type text =>
    match Key.named? text with
    | some key => s.press key
    | none => return ({ s with input := ← s.input.typed text }).stay
  | .press key => s.press key
  | .resize width height => return ({ s with window := some ⟨width, height⟩ }).stay

end State
end TurtleLogo.Console
