import TurtleLogo.Text.Quoted
import TurtleLogo.Yaml.Node

/-!
Complaints about a document that is well formed but does not describe what is asked for.
All of them are collected before the document is rejected.
-/
namespace TurtleLogo.Yaml
open Text

inductive Complaint where
  | repeated (line : Nat) (key : Bytes) (first : Nat)
  | unknown (line : Nat) (key : Bytes) (type : String)
  | alreadySet (line : Nat) (key : Bytes) (type : String)
  | wrongType (line : Nat) (tag written : Bytes) (type : String)
  deriving DecidableEq, Repr

namespace Complaint

def shown (tag written : Bytes) : Bytes :=
  if tag == utf8 "!!seq" || tag == utf8 "!!map" then tag ++ written
  else
    tag ++ utf8 " `" ++ (if 10 < written.length then written.take 7 ++ utf8 "..." else written) ++
      utf8 "`"

def message : Complaint → Bytes
  | repeated line key first =>
    utf8 "line " ++ decimal line ++ utf8 ": mapping key " ++ quoted key ++
      utf8 " already defined at line " ++ decimal first
  | unknown line key type =>
    utf8 "line " ++ decimal line ++ utf8 ": field " ++ key ++ utf8 " not found in type " ++
      utf8 type
  | alreadySet line key type =>
    utf8 "line " ++ decimal line ++ utf8 ": field " ++ key ++ utf8 " already set in type " ++
      utf8 type
  | wrongType line tag written type =>
    utf8 "line " ++ decimal line ++ utf8 ": cannot unmarshal " ++ shown tag written ++
      utf8 " into " ++ utf8 type

end Complaint

namespace Node

/-- Whether two keys are the same; sequences and mappings are told apart by their kind only. -/
def isSameKey : Node → Node → Bool
  | scalar _ _ a, scalar _ _ b => a == b
  | reference _ a .., reference _ b .. => a == b
  | sequence .., sequence .. => true
  | mapping .., mapping .. => true
  | _, _ => false

def keyText : Node → Bytes
  | scalar _ _ value => value
  | reference _ name .. => name
  | _ => []

def repetitions : List Node → List Complaint
  | [] => []
  | key :: rest =>
    (rest.filter (isSameKey key)).map
      (fun other => .repeated other.line (keyText other) key.line) ++ repetitions rest

end Node
end TurtleLogo.Yaml
