import TurtleLogo.Text.Quoted

/-!
Flags at the front of an argument list. They begin with one or two hyphens; a value stands
behind an equals sign or in the next argument, and switches need none. The first argument
that is no flag, or one of two hyphens only, ends them.
-/
namespace TurtleLogo.Flags
open Text

/-- What a flag does to the options. A value that is refused gives the reason. -/
inductive Effect (σ : Type) where
  | switch (set : Bool → σ → σ)
  | value (set : Bytes → σ → Except Bytes σ)

structure Flag (σ : Type) where
  name : String
  effect : Effect σ

def Flag.switch {σ : Type} (name : String) (set : Bool → σ → σ) : Flag σ := ⟨name, .switch set⟩

def Flag.text {σ : Type} (name : String) (set : Bytes → σ → σ) : Flag σ :=
  ⟨name, .value fun v s => .ok (set v s)⟩

inductive Error where
  | badForm (argument : Bytes)
  | helpRequested
  | undefined (name : Bytes)
  | missingValue (name : Bytes)
  | refused (name value reason : Bytes)
  | notBool (name value : Bytes)
  deriving DecidableEq, Repr

def Error.message : Error → Bytes
  | badForm argument => utf8 "bad flag syntax: " ++ argument
  | helpRequested => utf8 "flag: help requested"
  | undefined name => utf8 "flag provided but not defined: -" ++ name
  | missingValue name => utf8 "flag needs an argument: -" ++ name
  | refused name value reason =>
    utf8 "invalid value " ++ quoted value ++ utf8 " for flag -" ++ name ++ utf8 ": " ++ reason
  | notBool name value =>
    utf8 "invalid boolean value " ++ quoted value ++ utf8 " for -" ++ name ++ utf8 ": parse error"

inductive Argument where
  | plain
  | terminator
  | malformed
  | flag (name : Bytes) (value : Option Bytes)
  deriving DecidableEq, Repr

def hyphen : UInt8 := 45

def namedArgument (body : Bytes) : Argument :=
  match body with
  | [] => .malformed
  | b :: _ =>
    if b == hyphen || b == byte '=' then .malformed
    else match cutAt? (byte '=') body with
      | some (name, value) => .flag name (some value)
      | none => .flag body none

def Argument.ofText : Bytes → Argument
  | a :: b :: rest =>
    if a != hyphen then .plain
    else if b != hyphen then namedArgument (b :: rest)
    else if rest.isEmpty then .terminator
    else namedArgument rest
  | _ => .plain

def bool? (text : Bytes) : Option Bool :=
  if ["1", "t", "T", "TRUE", "true", "True"].any fun s => utf8 s == text then some true
  else if ["0", "f", "F", "FALSE", "false", "False"].any fun s => utf8 s == text then some false
  else none

def isHelp (name : Bytes) : Bool := name == utf8 "help" || name == utf8 "h"

structure Waiting (σ : Type) where
  name : Bytes
  set : Bytes → σ → Except Bytes σ

def Waiting.give {σ : Type} (w : Waiting σ) (value : Bytes) (s : σ) : Except Error σ :=
  (w.set value s).mapError (.refused w.name value)

/-- What one argument that is a flag does: the options after it, and the flag that now waits. -/
def apply {σ : Type} (flags : List (Flag σ)) (s : σ) (name : Bytes) (value : Option Bytes) :
    Except Error (σ × Option (Waiting σ)) :=
  match flags.find? fun f => utf8 f.name == name with
  | none => .error (if isHelp name then .helpRequested else .undefined name)
  | some f =>
    match f.effect, value with
    | .switch set, none => .ok (set true s, none)
    | .switch set, some v =>
      match bool? v with
      | some b => .ok (set b s, none)
      | none => .error (.notBool name v)
    | .value set, none => .ok (s, some ⟨name, set⟩)
    | .value set, some v => (Waiting.give ⟨name, set⟩ v s).map fun s => (s, none)

def parseFrom {σ : Type} (flags : List (Flag σ)) :
    σ → Option (Waiting σ) → List Bytes → Except Error (σ × List Bytes)
  | s, none, [] => .ok (s, [])
  | _, some w, [] => .error (.missingValue w.name)
  | s, some w, value :: rest =>
    match w.give value s with
    | .error e => .error e
    | .ok s => parseFrom flags s none rest
  | s, none, argument :: rest =>
    match Argument.ofText argument with
    | .plain => .ok (s, argument :: rest)
    | .terminator => .ok (s, rest)
    | .malformed => .error (.badForm argument)
    | .flag name value =>
      match apply flags s name value with
      | .error e => .error e
      | .ok (s, waiting) => parseFrom flags s waiting rest

def parse {σ : Type} (flags : List (Flag σ)) (initial : σ) (arguments : List Bytes) :
    Except Error (σ × List Bytes) :=
  parseFrom flags initial none arguments

end TurtleLogo.Flags
