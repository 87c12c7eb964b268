import TurtleLogo.Command
import TurtleLogo.Console.View

/-!
The program: plans carried out on the files of the machine, and conversations held over
the standard streams.
-/
namespace TurtleLogo.Main
open Text Files

def textOf (bytes : Bytes) : String := (String.fromUTF8? ⟨bytes.toArray⟩).getD ""

def bytesOf (bytes : ByteArray) : Bytes := bytes.toList

def reasonOf : IO.Error → Files.Reason
  | .noFileOrDirectory .. => .notFound
  | .inappropriateType .. => .isDirectory
  | e => .other (utf8 (toString e))

def attempt {α : Type} (path : Path) (action : Files.Reason → String) (work : IO α) :
    IO (Except FileError α) := do
  try
    return .ok (← work)
  catch e =>
    let reason := reasonOf e
    return .error ⟨action reason, path, reason⟩

partial def filesFrom (path : String) : IO (List String) := do
  let place ← IO.FS.realPath path
  if ← place.isDir then
    let entries ← place.readDir
    let below ← entries.toList.mapM fun entry => filesFrom entry.path.toString
    return below.flatten
  else if ← place.pathExists then return [place.toString]
  else throw (.noFileOrDirectory path 2 "no such file or directory")

def carryOut {α : Type} : Plan α → IO α
  | .done result => return result
  | .halt message => throw (IO.userError (textOf message))
  | .here next => do carryOut (next (utf8 (← IO.currentDir).toString))
  | .read path next => do
    let found ← attempt path (fun r => if r == .isDirectory then "read" else "open")
      (IO.FS.readBinFile (textOf path))
    carryOut (next (found.map bytesOf))
  | .write path contents next => do
    carryOut (next (← attempt path (fun _ => "open")
      (IO.FS.writeBinFile (textOf path) ⟨contents.toArray⟩)))
  | .list path next => do
    let found ← attempt path (fun _ => "lstat") (filesFrom (textOf path))
    carryOut (next (found.map fun files => files.map utf8))

def send (output : IO.FS.Stream) (bytes : Bytes) : IO Unit := do
  output.write ⟨bytes.toArray⟩
  output.flush

partial def headerLines (input : IO.FS.Stream) : IO Bytes := do
  let line ← input.getLine
  if line.isEmpty || line == "\n" || line == "\r\n" then return utf8 line
  else return utf8 line ++ (← headerLines input)

partial def exactly (input : IO.FS.Stream) (count : Nat) : IO Bytes := do
  if count == 0 then return []
  let chunk ← input.read (USize.ofNat count)
  if chunk.isEmpty then return []
  else return bytesOf chunk ++ (← exactly input (count - chunk.size))

partial def serveEditor (s : Editor.Server) : IO (Option Bytes) := do
  let input ← IO.getStdin
  let header ← headerLines input
  let payload ← exactly input (Editor.Stream.announced header)
  match Editor.Stream.next (header ++ payload) with
  | .ended => return none
  | .failed e => return some e.message
  | .payload bytes _ =>
    let (s, sent, ended) := Editor.Stream.reply s bytes
    send (← IO.getStdout) sent
    if ended then return none else serveEditor s

/-- Talks to the user line by line: after every line come the new entries of the transcript and
    the panels. -/
partial def serveConsole (s : Console.State) : IO (Option Bytes) := do
  let output ← IO.getStdout
  send output s.prompt.text
  let line ← (← IO.getStdin).getLine
  if line.isEmpty then return none
  let entered ← carryOut (s.act (.setInput (utf8 line)))
  let step ← carryOut (entered.state.act (.press .enter))
  let fresh := (step.state.transcript.drop s.transcript.length).flatMap Console.Entry.lines
  send output ((fresh ++ step.state.panelBlock).flatMap fun shown => shown ++ [newline])
  if step.quits then return none else serveConsole step.state

def word (bytes : ByteArray) : UInt64 :=
  bytes.toList.foldl (fun n b => n * 256 + b.toUInt64) 0

def randomStream : IO Random.Stream := do
  return ⟨word (← IO.getRandomBytes 8), word (← IO.getRandomBytes 8)⟩

def report (r : Report) : IO (Option Bytes) := do
  send (← IO.getStdout) r.out
  send (← IO.getStderr) r.err
  return r.failure

def run (arguments : List String) : IO UInt32 := do
  let random ← randomStream
  let program := (← IO.appPath).toString
  let failure ← match Request.ofCommandLine random ((program :: arguments).map utf8) with
    | .report plan => do report (← carryOut plan)
    | .editor => serveEditor Editor.Server.initial
    | .console => serveConsole (Console.State.start random)
  match failure with
  | none => return 0
  | some message =>
    send (← IO.getStderr) (message ++ [newline])
    return 1

end TurtleLogo.Main

def main (arguments : List String) : IO UInt32 := TurtleLogo.Main.run arguments
