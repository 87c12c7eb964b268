import TurtleLogo.Files
import TurtleLogo.Evaluate
import TurtleLogo.Yaml.Decode
import TurtleLogo.Yaml.Document

/-!
Settings of a run, kept in a YAML file: a flat mapping from names to scalars. Every
complaint about a name or a type is collected before the file is rejected; a bound that is
negative is rejected after that.
-/
namespace TurtleLogo
open Text Files

/-- Bounds are zero where there are none. An empty program or output stands for no choice. -/
structure Settings where
  program : Bytes
  output : Bytes
  seed : Option UInt64
  limits : Limits
  verbose : Bool
  deriving DecidableEq, Repr

namespace Settings

def default : Settings := ⟨[], [], none, ⟨0, 0⟩, false⟩

inductive Kind where
  | text | int | word | bool | settings
  deriving DecidableEq, Repr

def Kind.name : Kind → String
  | text => "string"
  | int => "int"
  | word => "uint64"
  | bool => "bool"
  | settings => "main.runConfig"

/-- The name of the type that a value with a tag does not fit. A word may be missing, and is then
    named as such where the tag says that there is none. -/
def Kind.nameFor (kind : Kind) (tag : Bytes) : String :=
  if kind == word && tag == utf8 "!!null" then "*uint64" else kind.name

def asInt (value : Yaml.Value) (_ : Bytes) : Option Int :=
  match value with
  | .int i => if i < Number.twoTo 63 then some i else none
  | .float x => if x ≤ Float.ofNat (Number.twoTo 63) then some (Number.truncate x) else none
  | _ => none

def wordOfFloat (x : Float) : UInt64 :=
  let half := Number.twoTo 63
  UInt64.ofInt
    (if x < Float.ofNat half then Number.truncate x
    else Number.truncate (x - Float.ofNat half) + half)

def asWord (value : Yaml.Value) (_ : Bytes) : Option UInt64 :=
  match value with
  | .int i => if 0 ≤ i then some (UInt64.ofInt i) else none
  | .float x => if x ≤ Float.ofNat (Number.twoTo 64) then some (wordOfFloat x) else none
  | _ => none

def asBool (value : Yaml.Value) (_ : Bytes) : Option Bool :=
  match value with
  | .bool b => some b
  | .text t =>
    if Yaml.among ["y", "Y", "yes", "Yes", "YES", "on", "On", "ON"] t then some true
    else if Yaml.among ["n", "N", "no", "No", "NO", "off", "Off", "OFF"] t then some false
    else none
  | _ => none

structure Draft where
  program : Bytes
  output : Bytes
  seed : Option UInt64
  stepQuota : Int
  recursionLimit : Int
  verbose : Bool
  deriving DecidableEq, Repr

def Draft.empty : Draft := ⟨[], [], none, 0, 0, false⟩

structure Place where
  document : Yaml.Document
  path : List Nat

def Draft.changed {α : Type} (d : Draft) (place : Place) (kind : Kind)
    (convert : Yaml.Value → Bytes → Option α) (change : Option α → Draft) (value : Yaml.Node) :
    Yaml.Decoding Draft := do
  match ← Yaml.readAs place.document place.path kind.nameFor convert value with
  | .nothing => return change none
  | .value a => return change (some a)
  | .wrong => return d

def Draft.set? (d : Draft) (place : Place) (name : Bytes) :
    Option (Yaml.Node → Yaml.Decoding Draft) :=
  if name == utf8 "program" then
    some (d.changed place .text Yaml.asText fun v => { d with program := v.getD d.program })
  else if name == utf8 "output" then
    some (d.changed place .text Yaml.asText fun v => { d with output := v.getD d.output })
  else if name == utf8 "seed" then
    some (d.changed place .word asWord fun v => { d with seed := v })
  else if name == utf8 "step_quota" then
    some (d.changed place .int asInt fun v => { d with stepQuota := v.getD d.stepQuota })
  else if name == utf8 "recursion_limit" then
    some (d.changed place .int asInt fun v => { d with recursionLimit := v.getD d.recursionLimit })
  else if name == utf8 "verbose" then
    some (d.changed place .bool asBool fun v => { d with verbose := v.getD d.verbose })
  else none

/-- A draft while the entries of a mapping are taken in: the names that it has set, and if it is
    merged into another one the keys that are settled. -/
structure Progress where
  draft : Draft
  done : List Bytes
  settled : Option (List Yaml.Datum)

namespace Progress

def set (p : Progress) (place : Place) (line : Nat) (name : Bytes) (value : Yaml.Node) :
    Yaml.Decoding Progress := do
  match p.draft.set? place name with
  | none =>
    Yaml.complain [.unknown line name Kind.settings.name]
    return p
  | some change =>
    if p.done.contains name then
      Yaml.complain [.alreadySet line name Kind.settings.name]
      return p
    else return { p with draft := ← change value, done := name :: p.done }

/-- Takes in one entry. A key that is null is passed over, and so is one that is settled. -/
def enter (place : Place) (p : Progress) : Yaml.Node × Yaml.Node → Yaml.Decoding Progress
  | (key, value) =>
    if key.isMerge then return p
    else do
      match ← Yaml.readText place.document place.path key, p.settled with
      | .value name, none => p.set place key.line name value
      | .value name, some keys =>
        let (keys, wasThere) ← Yaml.settleIn keys (.scalar (.text name))
        let p := { p with settled := some keys }
        if wasThere then return p else p.set place key.line name value
      | _, _ => return p

end Progress

/-- Takes the entries of a mapping into a draft, but not what is merged into it. -/
def Draft.enterAll (d : Draft) (place : Place) (entries : List (Yaml.Node × Yaml.Node)) :
    Yaml.Decoding Draft :=
  Yaml.apart fun settled => do
    let p ← entries.foldlM (Progress.enter place) ⟨d, [], settled⟩
    return (p.draft, p.settled)

/-- Takes a mapping into a draft and then what is merged into it. Repeated keys are complained about
    before any entry is read. -/
def Draft.takeIn (document : Yaml.Document) :
    Nat → (path : List Nat) → Draft → Yaml.Node → Yaml.Decoding Draft
  | 0, _, d, _ => return d
  | n + 1, path, d, node => do
    match ← Yaml.follow document path node with
    | (path, .mapping _ _ entries) =>
      match Yaml.Node.repetitions (entries.map Prod.fst) with
      | [] =>
        let d ← d.enterAll ⟨document, path⟩ entries
        match Yaml.mergedValue? entries with
        | none => return d
        | some value =>
          Yaml.withSettled (Yaml.settleKeys document document.reach path entries)
            (Yaml.mergeEach document (takeIn document n path) d value)
      | more =>
        Yaml.complain more
        return d
    | _ => return d

def Draft.ofRoot (document : Yaml.Document) : Yaml.Decoding Draft := do
  if document.isMapping document.root then
    takeIn document document.reach [] empty document.root
  else
    let nothing (_ : Yaml.Value) (_ : Bytes) : Option Draft := none
    empty.changed ⟨document, []⟩ .settings nothing (fun _ => empty) document.root

inductive Error where
  | file (e : FileError)
  | unreadable (path : Path) (e : FileError)
  | malformed (path : Path) (failure : Yaml.Failure)
  | mismatched (path : Path) (complaints : List Yaml.Complaint)
  | negativeStepQuota
  | negativeRecursionLimit
  deriving DecidableEq, Repr

def Error.message : Error → Bytes
  | file e => utf8 "config: " ++ e.message
  | unreadable path e => utf8 "config: parse " ++ path ++ utf8 ": yaml: input error: " ++ e.message
  | malformed path failure => utf8 "config: parse " ++ path ++ utf8 ": yaml: " ++ failure.message
  | mismatched path complaints =>
    utf8 "config: parse " ++ path ++ utf8 ": yaml: unmarshal errors:\n  " ++
      joined (utf8 "\n  ") (complaints.map Yaml.Complaint.message)
  | negativeStepQuota => utf8 "config: step_quota must not be negative"
  | negativeRecursionLimit => utf8 "config: recursion_limit must not be negative"

def ofDraft (d : Draft) : Except Error Settings :=
  if d.stepQuota < 0 then .error .negativeStepQuota
  else if d.recursionLimit < 0 then .error .negativeRecursionLimit
  else .ok ⟨d.program, d.output, d.seed, ⟨d.stepQuota.toNat, d.recursionLimit.toNat⟩, d.verbose⟩

def ofText (path : Path) (text : Bytes) : Except Error Settings :=
  match Yaml.read text with
  | .error failure => .error (.malformed path failure)
  | .ok none => .ok default
  | .ok (some document) =>
    match Draft.ofRoot document Yaml.Tally.start with
    | .error failure => .error (.malformed path failure)
    | .ok (d, tally) =>
      if tally.complaints.isEmpty then ofDraft d
      else .error (.mismatched path tally.complaints.toList)

def defaultPath : Path := utf8 "logo.yaml"

/-- The settings in the file of a path, or where no path is given in the default file, which may be
    missing. A list or a table where a key is looked up makes the plan break down. -/
def load (path : Path) : Plan (Except Error Settings) := do
  let place ← Plan.absolutePath (if path.isEmpty then defaultPath else path)
  match ← Plan.readFile place with
  | .ok text =>
    match ofText place text with
    | .error (.malformed _ (.unhashable type)) => .halt (Yaml.Failure.unhashable type).message
    | result => return result
  | .error e =>
    if path.isEmpty && e.reason == .notFound then return .ok default
    else if e.action == "read" then return .error (.unreadable place e)
    else return .error (.file e)

end Settings
end TurtleLogo
