import TurtleLogo.Program

/-!
What a running program knows: global variables, procedures, and the parameters of the
procedure calls in progress. Parameters are looked up in the innermost call first and
then outward.
-/
namespace TurtleLogo
open Text

/-- A table from names to values; a name occurs at most once. -/
abbrev Table (α : Type) := List (Name × α)

namespace Table

def get? {α : Type} (t : Table α) (name : Name) : Option α := t.lookup name

def set {α : Type} (t : Table α) (name : Name) (value : α) : Table α :=
  match t with
  | [] => [(name, value)]
  | (key, old) :: rest =>
    if key == name then (key, value) :: rest else (key, old) :: Table.set rest name value

def names {α : Type} (t : Table α) : List Name := sorted (t.map Prod.fst)

end Table

structure Procedure where
  name : Name
  params : List Name
  body : List Stmt
  pos : Position

def Procedure.arity (p : Procedure) : Nat := p.params.length

structure Frame where
  procedure : Name
  params : Table Float
  deriving DecidableEq

/-- The frames are the calls in progress, the innermost first. -/
structure Environment where
  globals : Table Float
  procedures : Table Procedure
  frames : List Frame

namespace Environment

def empty : Environment := ⟨[], [], []⟩

def global? (e : Environment) (name : Name) : Option Float := e.globals.get? name

def setVariable (e : Environment) (name : Name) (value : Float) : Environment :=
  { e with globals := e.globals.set name value }

def procedure? (e : Environment) (name : Name) : Option Procedure := e.procedures.get? name

def define (e : Environment) (p : Procedure) : Environment :=
  { e with procedures := e.procedures.set p.name p }

def procedureNames (e : Environment) : List Name := e.procedures.names

def param? (e : Environment) (name : Name) : Option Float :=
  e.frames.findSome? fun f => f.params.get? name

def enter (e : Environment) (procedure : Name) (params : Table Float) : Environment :=
  { e with frames := ⟨procedure, params⟩ :: e.frames }

def leave (e : Environment) : Environment := { e with frames := e.frames.tail }

def depth (e : Environment) : Nat := e.frames.length

end Environment
end TurtleLogo
