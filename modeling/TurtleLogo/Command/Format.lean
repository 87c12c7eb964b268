import TurtleLogo.Command.Flags
import TurtleLogo.Files
import TurtleLogo.Indent

/-!
The command that indents programs. It takes files and directories, of the latter every
file with the extension of a program at any depth, and shows the result, writes it back or
only lists the files that would change.
-/
namespace TurtleLogo.Format
open Text Files

structure Options where
  write : Bool
  check : Bool
  deriving DecidableEq, Repr

def flags : List (Flags.Flag Options) :=
  [.switch "w" fun b o => { o with write := b }, .switch "check" fun b o => { o with check := b }]

inductive Mode where
  | print | write | check
  deriving DecidableEq, Repr

/-- Checking wins over writing. -/
def Options.mode (o : Options) : Mode :=
  if o.check then .check else if o.write then .write else .print

inductive Error where
  | flags (e : Flags.Error)
  | pathRequired
  | target (e : FileError)
  | read (path : Path) (e : FileError)
  | write (path : Path) (e : FileError)
  | stale (count : Nat)
  deriving DecidableEq, Repr

def Error.message : Error → Bytes
  | flags e => e.message
  | pathRequired => utf8 "logo fmt: path required"
  | target e => utf8 "logo fmt: " ++ e.message
  | read path e => utf8 "read " ++ path ++ utf8 ": " ++ e.message
  | write path e => utf8 "write " ++ path ++ utf8 ": " ++ e.message
  | stale count => utf8 "logo fmt: " ++ decimal count ++ utf8 " file(s) need formatting"

def collect : List Path → Plan (Except Error (List Path))
  | [] => return .ok []
  | target :: rest => do
    match ← Plan.listFiles target with
    | .error e => return .error (.target e)
    | .ok files =>
      let programs := files.filter fun p => extension p == utf8 ".logo"
      return (← collect rest).map fun more => programs ++ more

def programFiles (targets : List Path) : Plan (Except Error (List Path)) :=
  return (← collect targets).map fun files => compact (sorted files)

structure Progress where
  out : Bytes
  stale : List Path
  error : Option Error
  deriving DecidableEq, Repr

def formatFile (mode : Mode) (path : Path) : Plan Progress := do
  match ← Plan.readFile path with
  | .error e => return ⟨[], [], some (.read path e)⟩
  | .ok text =>
    let result := formatted text
    let stale := if result == text then [] else [path]
    match mode with
    | .print => return ⟨result, stale, none⟩
    | .check => return ⟨[], stale, none⟩
    | .write =>
      if result == text then return ⟨[], [], none⟩
      else
        match ← Plan.writeFile path result with
        | .error e => return ⟨[], stale, some (.write path e)⟩
        | .ok _ => return ⟨[], stale, none⟩

def formatFiles (mode : Mode) : List Path → Plan Progress
  | [] => return ⟨[], [], none⟩
  | path :: rest => do
    let first ← formatFile mode path
    if first.error.isSome then return first
    else
      let more ← formatFiles mode rest
      return ⟨first.out ++ more.out, first.stale ++ more.stale, more.error⟩

structure Result where
  error : Option Error
  out : Bytes
  deriving DecidableEq, Repr

def Progress.result (p : Progress) (mode : Mode) : Result :=
  if p.error.isSome then ⟨p.error, p.out⟩
  else if mode == .check && !p.stale.isEmpty then
    ⟨some (.stale p.stale.length), p.out ++ p.stale.flatMap fun path => path ++ [newline]⟩
  else ⟨none, p.out⟩

def run (arguments : List Bytes) : Plan Result :=
  match Flags.parse flags ⟨false, false⟩ arguments with
  | .error e => return ⟨some (.flags e), []⟩
  | .ok (_, []) => return ⟨some .pathRequired, []⟩
  | .ok (options, targets) => do
    match ← programFiles targets with
    | .error e => return ⟨some e, []⟩
    | .ok files => return (← formatFiles options.mode files).result options.mode

end TurtleLogo.Format
