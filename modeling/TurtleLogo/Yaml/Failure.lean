import TurtleLogo.Text.Bytes

/-!
What makes a text no YAML document, or what is written in it no value of the type asked for
by its tag.
-/
namespace TurtleLogo.Yaml
open Text

inductive Failure where
  | problem (line : Option Nat) (text : String)
  | unknownAnchor (name : Bytes)
  | selfContained (name : Bytes)
  | undecodable (found : String) (written wanted : Bytes)
  | invalidBase64
  | mergeWithoutMapping
  | invalidKey (shown : Bytes)
  | excessiveReferences
  | unhashable (type : String)
  deriving DecidableEq, Repr

namespace Failure

def message : Failure → Bytes
  | problem line text => (line.elim [] fun n => utf8 "line " ++ decimal n ++ utf8 ": ") ++ utf8 text
  | unknownAnchor name => utf8 "unknown anchor '" ++ name ++ utf8 "' referenced"
  | selfContained name => utf8 "anchor '" ++ name ++ utf8 "' value contains itself"
  | undecodable found written wanted =>
    utf8 "cannot decode " ++ utf8 found ++ utf8 " `" ++ written ++ utf8 "` as a " ++ wanted
  | invalidBase64 => utf8 "!!binary value contains invalid base64 data"
  | mergeWithoutMapping => utf8 "map merge requires map or sequence of maps as the value"
  | invalidKey shown => utf8 "invalid map key: " ++ shown
  | excessiveReferences => utf8 "document contains excessive aliasing"
  | unhashable type => utf8 ("hash of unhashable type: " ++ type)

end Failure

/-- What was found wrong with a text, the lines on which the construct at fault begins and on which
    the fault was noticed, and whether it is in the characters of a token. Lines count from
    zero. -/
structure Blame where
  text : String
  begun : Nat
  here : Nat
  inToken : Bool
  deriving DecidableEq, Repr

namespace Blame

/-- The line that is reported: the one on which the construct begins, or if that is the first the
    one on which the fault was noticed, or if that is the first too none. It is reported as counted
    from one if the fault is in a token, and as counted from zero if not. -/
def line? (b : Blame) : Option Nat :=
  let line := if b.begun == 0 then b.here else b.begun
  if line == 0 then none else some (if b.inToken then line + 1 else line)

def failure (b : Blame) : Failure := .problem b.line? b.text

end Blame
end TurtleLogo.Yaml
