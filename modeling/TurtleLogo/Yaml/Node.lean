import TurtleLogo.Yaml.Value

/-!
The nodes of a YAML document. Every node has a tag, written or not, and knows the line it
begins on. Nodes that have a name are numbered, and references to them hold the number, so
that a node may be a part of itself.
-/
namespace TurtleLogo.Yaml
open Text

/-- A reference has a number of its own, and that of the node which its name stood for. -/
inductive Node where
  | scalar (line : Nat) (tag value : Bytes)
  | sequence (line : Nat) (tag : Bytes) (items : List Node)
  | mapping (line : Nat) (tag : Bytes) (entries : List (Node × Node))
  | reference (line : Nat) (name : Bytes) (number target : Nat)

namespace Node

def line : Node → Nat
  | scalar line .. | sequence line .. | mapping line .. | reference line .. => line

def commonTag : Bytes := utf8 "tag:yaml.org,2002:"

def shortTag (tag : Bytes) : Bytes :=
  if commonTag.isPrefixOf tag then utf8 "!!" ++ tag.drop commonTag.length else tag

/-- The tag of a node, given the one that is written. A lone exclamation mark counts as none. -/
def tagOr (implied written : Bytes) : Bytes :=
  if written.isEmpty || written == utf8 "!" then implied else shortTag written

def mergeTag : Bytes := utf8 "!!merge"

def impliedTag (plain : Bool) (value : Bytes) : Bytes :=
  if !plain then utf8 "!!str"
  else if value == utf8 "<<" then mergeTag
  else utf8 (spelled true value).tag

def ofScalar (line : Nat) (tag : Bytes) (plain : Bool) (value : Bytes) : Node :=
  scalar line (tagOr (impliedTag plain value) tag) value

def empty (line : Nat) : Node := ofScalar line [] true []

def ofItems (line : Nat) (tag : Bytes) (items : List Node) : Node :=
  sequence line (tagOr (utf8 "!!seq") tag) items

def ofEntries (line : Nat) (tag : Bytes) (entries : List (Node × Node)) : Node :=
  mapping line (tagOr (utf8 "!!map") tag) entries

def isMerge : Node → Bool
  | scalar _ tag value => value == utf8 "<<" && tag == mergeTag
  | _ => false

end Node

/-- The root of a document and the nodes in it that have a name. It has no more than `bound`
    nodes. -/
structure Document where
  root : Node
  named : Array Node
  bound : Nat

namespace Document

def target (d : Document) (number : Nat) : Node := (d.named[number]?).getD (Node.empty 0)

def isMapping (d : Document) : Node → Bool
  | .mapping .. => true
  | .reference _ _ _ number =>
    match d.target number with
    | .mapping .. => true
    | _ => false
  | _ => false

def tagOf (d : Document) : Node → Bytes
  | .scalar _ tag _ | .sequence _ tag _ | .mapping _ tag _ => tag
  | .reference _ _ _ number =>
    match d.target number with
    | .scalar _ tag _ | .sequence _ tag _ | .mapping _ tag _ => tag
    | .reference .. => []

end Document
end TurtleLogo.Yaml
