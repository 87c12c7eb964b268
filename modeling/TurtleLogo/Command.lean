import TurtleLogo.Command.Analyze
import TurtleLogo.Command.Format
import TurtleLogo.Command.Run
import TurtleLogo.Editor.Stream

/-!
The command line: the first argument names a command, the others are for that command.
-/
namespace TurtleLogo
open Text Files

structure Report where
  failure : Option Bytes
  out : Bytes
  err : Bytes
  deriving DecidableEq, Repr

/-- A command line asks for a plan with a report, or for a conversation with an editor or at the
    console. -/
inductive Request where
  | report (plan : Plan Report)
  | editor
  | console

namespace Request

def usage (program : Bytes) : Bytes :=
  utf8 "Usage: " ++ program ++ utf8 (" <command> [flags]\n" ++
    "Commands:\n" ++
    "  run [flags] [script]    run a program and write an SVG drawing\n" ++
    "  repl                    start an interactive session\n" ++
    "  fmt [-w] [-check] path  re-indent .logo files\n" ++
    "  analyze script          report likely mistakes\n" ++
    "  lsp                     serve the language server protocol on stdio\n" ++
    "Run flags:\n" ++
    "  -program, -P string\n" ++
    "    program text to run (default: a sample drawing)\n" ++
    "  -output, -O string\n" ++
    "    path of the SVG to write (default \"turtle.svg\")\n" ++
    "  -config string\n" ++
    "    YAML config file (default ./logo.yaml when present)\n" ++
    "  -seed uint\n" ++
    "    seed for random\n" ++
    "  -check\n" ++
    "    only compile the program without running it\n" ++
    "  -v\n" ++
    "    log procedure calls and run statistics\n")

def run (random : Random.Stream) (arguments : List Bytes) : Plan Report := do
  let result ← Run.run random arguments
  return ⟨result.error.map (·.message), [], result.log.flatMap Log.Record.line⟩

def format (arguments : List Bytes) : Plan Report := do
  let result ← Format.run arguments
  return ⟨result.error.map (·.message), result.out, []⟩

def analyze (arguments : List Bytes) : Plan Report := do
  let result ← Analyze.run arguments
  return ⟨result.error.map (·.message), result.out, []⟩

def isHelp (command : Bytes) : Bool :=
  command == utf8 "help" || command == utf8 "-h" || command == utf8 "--help"

def ofCommandLine (random : Random.Stream) : List Bytes → Request
  | program :: command :: arguments =>
    if command == utf8 "run" then .report (run random arguments)
    else if command == utf8 "repl" then .console
    else if command == utf8 "fmt" then .report (format arguments)
    else if command == utf8 "analyze" then .report (analyze arguments)
    else if command == utf8 "lsp" then .editor
    else
      let failure := if isHelp command then none else some (utf8 "invalid command")
      .report (return ⟨failure, [], usage (baseName program)⟩)
  | commandLine =>
    let program := commandLine.headD (utf8 "logo")
    .report (return ⟨some (utf8 "invalid command"), [], usage (baseName program)⟩)

end Request

def Report.ofConversation (input : Bytes) : Report :=
  let (out, error) := Editor.serve input
  ⟨error.map (·.message), out, []⟩

end TurtleLogo
