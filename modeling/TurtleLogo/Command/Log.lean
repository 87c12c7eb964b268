import TurtleLogo.Evaluate

/-!
Log lines: a level, a message and attributes, each as a key, an equals sign and a value.
Values that could be mistaken for something else are quoted.
-/
namespace TurtleLogo.Log
open Text

inductive Level where
  | debug | info
  deriving DecidableEq, Repr

def Level.name : Level → String
  | debug => "DEBUG"
  | info => "INFO"

structure Record where
  level : Level
  message : String
  attributes : List (String × Bytes)
  deriving DecidableEq, Repr

/-- Whether a rune keeps a value from being written as it is. -/
def isDelicate (r : Rune) : Bool :=
  if r < 0x80 then r ≤ 32 || r == 34 || r == 61
  else r == replacement || isBlank r || !isPrintable r

def valueText (value : Bytes) : Bytes :=
  if value.isEmpty || (runes value).any isDelicate then quoted value else value

def attributeText (key : String) (value : Bytes) : Bytes := utf8 key ++ byte '=' :: valueText value

def Record.line (r : Record) : Bytes :=
  joined [space]
    (attributeText "level" (utf8 r.level.name) :: attributeText "msg" (utf8 r.message) ::
      r.attributes.map fun (key, value) => attributeText key value) ++ [newline]

def boolText (b : Bool) : Bytes := utf8 (if b then "true" else "false")

def ofEvent : Event → Record
  | .defined name params =>
    ⟨.debug, "define procedure", [("name", name), ("params", decimal params)]⟩
  | .called procedure depth =>
    ⟨.debug, "procedure call", [("procedure", procedure), ("stack-size", decimal depth)]⟩
  | .outputValue procedure value =>
    ⟨.debug, "procedure output", [("procedure", procedure), ("value", Number.text value)]⟩
  | .stopped procedure => ⟨.debug, "procedure stop", [("procedure", procedure)]⟩
  | .compiled statements => ⟨.debug, "compiled program", [("statements", decimal statements)]⟩
  | .compileFailed faults => ⟨.debug, "compile failed", [("errors", decimal faults)]⟩
  | .finished steps segments signalled =>
    ⟨.debug, "run finished",
      [("steps", decimal steps), ("segments", decimal segments), ("signalled", boolText signalled)]⟩
  | .failed steps message =>
    ⟨.debug, "run failed", [("steps", decimal steps), ("error", message)]⟩

end TurtleLogo.Log
