import TurtleLogo.Text.Rune

/-!
Panels: lines in a frame, set side by side. What is shown in panels takes one column for
every rune.
-/
namespace TurtleLogo.Console
open Text

/-- Lines of equal width, from the top. -/
abbrev Block := List Bytes

def spaces (n : Nat) : Bytes := List.replicate n space

def padded (width : Nat) (line : Bytes) : Bytes := line ++ spaces (width - runeCount line)

def widest (lines : List Bytes) : Nat := lines.foldl (fun w line => max w (runeCount line)) 0

def rule (left right : String) (width : Nat) : Bytes :=
  utf8 left ++ (List.replicate width (utf8 "─")).flatten ++ utf8 right

def panel (lines : List Bytes) : Block :=
  let width := widest lines
  rule "╭" "╮" (width + 2) ::
    lines.map (fun line => utf8 "│ " ++ padded width line ++ utf8 " │") ++
    [rule "╰" "╯" (width + 2)]

def height (block : Block) : Nat := block.length

def tallest (blocks : List Block) : Nat := blocks.foldl (fun h block => max h (height block)) 0

def sideBySide (blocks : List Block) : Block :=
  (List.range (tallest blocks)).map fun row =>
    blocks.flatMap fun block => padded (widest block) ((block[row]?).getD [])

end TurtleLogo.Console
