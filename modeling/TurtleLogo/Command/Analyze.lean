import TurtleLogo.Command.Flags
import TurtleLogo.Files
import TurtleLogo.Lint
import TurtleLogo.Parse

/-!
The command that reports likely mistakes in a script.
-/
namespace TurtleLogo.Analyze
open Text Files

inductive Error where
  | flags (e : Flags.Error)
  | scriptRequired
  | script (e : FileError)
  | compile (e : CompileError)
  | issues (count : Nat)

def Error.message : Error → Bytes
  | flags e => e.message
  | scriptRequired => utf8 "logo analyze: script path required"
  | script e => utf8 "read script: " ++ e.message
  | compile e => utf8 "analysis compile failed: " ++ e.message
  | issues count => utf8 "analysis found " ++ decimal count ++ utf8 " issue(s)"

structure Result where
  error : Option Error
  out : Bytes

def warningLine (path : Path) (w : Warning) : Bytes :=
  path ++ byte ':' :: decimal w.pos.line ++ byte ':' :: decimal w.pos.column ++ utf8 ": " ++
    w.complaint.message ++ utf8 " (" ++ w.procedure ++ utf8 ")\n"

def report (path : Path) (text : Bytes) : Result :=
  match parse text with
  | .error e => ⟨some (.compile e), []⟩
  | .ok p =>
    match p.warnings with
    | [] => ⟨none, utf8 "No issues found\n"⟩
    | warnings => ⟨some (.issues warnings.length), warnings.flatMap (warningLine path)⟩

/-- Arguments behind the first script are not looked at. -/
def run (arguments : List Bytes) : Plan Result :=
  match Flags.parse ([] : List (Flags.Flag Unit)) () arguments with
  | .error e => return ⟨some (.flags e), []⟩
  | .ok (_, []) => return ⟨some .scriptRequired, []⟩
  | .ok (_, script :: _) => do
    let path ← Plan.absolutePath script
    match ← Plan.readFile path with
    | .error e => return ⟨some (.script e), []⟩
    | .ok text => return report path text

end TurtleLogo.Analyze
