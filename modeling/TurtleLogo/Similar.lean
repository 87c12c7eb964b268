import TurtleLogo.Sort
import TurtleLogo.Text.Folded

/-!
Names that resemble a given one. A name resembles another whose letters it contains
in order, upper and lower case alike; resemblances are ranked by the number of
single-character edits between the two.
-/
namespace TurtleLogo.Similar
open Text

def isWithin : List Rune → List Rune → Bool
  | [], _ => true
  | _ :: _, [] => false
  | a :: as, b :: bs => if a == b then isWithin as bs else isWithin (a :: as) bs

/-- Whether the letters of a text are in a name in order, upper and lower case alike. In lower case
    the name may not be shorter. -/
def resembles (text name : Bytes) : Bool :=
  let text := folded text
  let name := folded name
  text.length ≤ name.length && isWithin (runes text) (runes name)

/-- The next row of the edit distance table: the distances from every beginning of `source` to a
    target extended by `r`, given those for the target without it. -/
def nextRow (r : Rune) : (left : Nat) → List Rune → List Nat → List Nat
  | _, [], _ => []
  | _, _ :: _, [] => []
  | _, _ :: _, [_] => []
  | left, s :: source, diagonal :: above :: row =>
    let here := min (min (above + 1) (left + 1)) (diagonal + if s == r then 0 else 1)
    here :: nextRow r here source (above :: row)

def rows (source : List Rune) : (index : Nat) → List Rune → List Nat → List Nat
  | _, [], row => row
  | index, r :: target, row => rows source (index + 1) target (index :: nextRow r index source row)

def distance (a b : Bytes) : Nat :=
  ((rows (runes a) 1 (runes b) (List.range ((runes a).length + 1))).getLast?).getD 0

def ranked (text : Bytes) (names : List Bytes) : List Bytes :=
  let near := (names.filter (resembles text)).map fun name => (distance text name, name)
  (Sort.quicksorted (fun a b => a.1 < b.1) near).map Prod.snd

def nearest? (text : Bytes) (names : List Bytes) : Option Bytes := (ranked text names).head?

end TurtleLogo.Similar
