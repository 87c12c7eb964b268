import TurtleLogo.Scan
import TurtleLogo.Text.Class

/-!
Source texts laid out anew. Every line is indented by two spaces for each block and
procedure body open before it; a line that begins with closing tokens is set back to
where they were opened. Nothing within a line changes, and the text ends in exactly one
newline.
-/
namespace TurtleLogo
open Text

namespace Indent

def deepen (depth : Nat) (t : Token) : Nat := (depth + t.kind.nesting).toNat

def leadingClosers (tokens : List Token) : Nat :=
  (tokens.takeWhile fun t => t.kind.nesting < 0).length

/-- The lines laid out from a depth on. Blank lines are emptied. -/
def layout : Nat → List Bytes → List Bytes
  | _, [] => []
  | depth, line :: rest =>
    let content := trim line
    if content.isEmpty then [] :: layout depth rest
    else
      let tokens := (tokenize content).tokens
      (List.replicate (2 * (depth - leadingClosers tokens)) space ++ content) ::
        layout (tokens.foldl deepen depth) rest

end Indent

def formatted (source : Bytes) : Bytes :=
  let laidOut := joined [newline] (Indent.layout 0 (lines (unifyEnds source)))
  dropEndWhile (· == newline) laidOut ++ [newline]

end TurtleLogo
