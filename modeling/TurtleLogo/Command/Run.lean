import TurtleLogo.Command.Flags
import TurtleLogo.Command.Log
import TurtleLogo.Session
import TurtleLogo.Settings

/-!
The command that runs a program and writes its drawing. Flags win over settings, and
settings over defaults. A file is written only after the program has run to its end.
-/
namespace TurtleLogo.Run
open Text Files

structure Options where
  program : Bytes
  output : Path
  settings : Path
  check : Bool
  verbose : Bool
  seed : Option UInt64
  deriving DecidableEq, Repr

def Options.none : Options := ⟨[], [], [], false, false, .none⟩

def word? (text : Bytes) : Option UInt64 :=
  if !text.isEmpty && text.all isDigit && natOfDigits text < Number.twoTo 64 then
    some (UInt64.ofNat (natOfDigits text))
  else .none

def setSeed (text : Bytes) (o : Options) : Except Bytes Options :=
  match word? text with
  | some seed => .ok { o with seed := some seed }
  | .none => .error (utf8 "invalid seed " ++ quoted text)

def flags : List (Flags.Flag Options) :=
  [.text "program" fun v o => { o with program := v },
   .text "P" fun v o => { o with program := v },
   .text "output" fun v o => { o with output := v },
   .text "O" fun v o => { o with output := v },
   .text "config" fun v o => { o with settings := v },
   .switch "check" fun b o => { o with check := b },
   .switch "v" fun b o => { o with verbose := b },
   ⟨"seed", .value setSeed⟩]

inductive Error where
  | flags (e : Flags.Error)
  | settings (e : Settings.Error)
  | tooManyScripts
  | programAndScript
  | script (e : FileError)
  | compile (e : CompileError)
  | run (failure : Failure)
  | output (e : FileError)

def Error.message : Error → Bytes
  | flags e => e.message
  | settings e => e.message
  | tooManyScripts => utf8 "logo run: at most one script path allowed"
  | programAndScript => utf8 "logo run: use either -program or a script path, not both"
  | script e => utf8 "read script: " ++ e.message
  | compile e => utf8 "compile failed: " ++ e.message
  | run failure => utf8 "run failed: " ++ failure.message
  | output e => utf8 "create output: " ++ e.message

def sample : Bytes := utf8 (
  "make \"length 50 to growsquare :length repeat 4 [forward :length right 90] " ++
  "make \"length :length + 50 end repeat 10 [growsquare \"length right 36 " ++
  "if \"length > 250 [make \"length 50]]")

structure Job where
  source : Bytes
  output : Path
  random : Random.Stream
  limits : Limits
  check : Bool
  verbose : Bool
  deriving DecidableEq, Repr

def firstGiven (texts : List Bytes) (otherwise : Bytes) : Bytes :=
  (texts.find? fun t => !t.isEmpty).getD otherwise

/-- The program comes from a flag or a script, which exclude each other, or else from the
    settings. -/
def source (o : Options) (s : Settings) : (scripts : List Path) → Plan (Except Error Bytes)
  | [] => return .ok (firstGiven [o.program, s.program] sample)
  | [script] =>
    if o.program.isEmpty then return (← Plan.readFile script).mapError .script
    else return .error .programAndScript
  | _ => return .error .tooManyScripts

/-- A seed makes a stream of its own; without one the given stream is used. -/
def job (random : Random.Stream) (o : Options) (s : Settings) (source : Bytes) : Job where
  source := source
  output := firstGiven [o.output, s.output] Image.defaultPath
  random := ((o.seed.or s.seed).map fun seed => ⟨seed, seed⟩).getD random
  limits := s.limits
  check := o.check
  verbose := o.verbose || s.verbose

def prepare (random : Random.Stream) (arguments : List Bytes) : Plan (Except Error Job) :=
  match Flags.parse flags Options.none arguments with
  | .error e => return .error (.flags e)
  | .ok (options, scripts) => do
    match ← Settings.load options.settings with
    | .error e => return .error (.settings e)
    | .ok settings =>
      return (← source options settings scripts).map (job random options settings)

structure Result where
  error : Option Error
  log : List Log.Record

def Job.events (j : Job) (events : List Event) : List Log.Record :=
  if j.verbose then events.map Log.ofEvent else []

def Job.compile (j : Job) : Result :=
  match parse j.source with
  | .ok p => ⟨none, j.events [.compiled p.statements.length]⟩
  | .error e => ⟨some (.compile e), j.events [.compileFailed e.faults.length]⟩

def Job.draw (j : Job) : Except Failure Image × List Event :=
  TurtleLogo.draw j.limits false j.random j.source

def written (output : Path) (image : Image) : Log.Record :=
  ⟨.info, "wrote drawing", [("path", output), ("segments", decimal image.segments.length)]⟩

def Job.perform (j : Job) : Plan Result :=
  if j.check then return j.compile
  else
    match j.draw with
    | (.error failure, events) => return ⟨some (.run failure), j.events events⟩
    | (.ok image, events) => do
      match ← Plan.writeFile j.output image.svg with
      | .error e => return ⟨some (.output e), j.events events⟩
      | .ok _ => return ⟨none, j.events events ++ [written j.output image]⟩

def run (random : Random.Stream) (arguments : List Bytes) : Plan Result := do
  match ← prepare random arguments with
  | .error e => return ⟨some e, []⟩
  | .ok job => job.perform

end TurtleLogo.Run
