import TurtleLogo.Image

/-!
A drawing shown in characters: it is scaled onto a grid of cells, and every segment
marks the cells at evenly spaced places along it, at least one for each cell it crosses.
A segment may be far longer than the grid is wide; only its places within the grid are
gone through.
-/
namespace TurtleLogo.Console
open Text

structure Grid where
  columns : Nat
  rows : Nat
  deriving DecidableEq, Repr

abbrev Cell := Int × Int

def scale (cells : Nat) (size : Int) : Float := Float.ofInt (cells - 1) / Float.ofInt size

/-- A segment along one axis: where it begins, how far it goes, how it is scaled, and the number of
    cells there are. -/
structure Axis where
  start : Float
  extent : Float
  scale : Float
  cells : Nat

namespace Axis

def length (a : Axis) : Float := (a.extent * a.scale).abs

def place (a : Axis) (steps : Int) (i : Nat) : Float :=
  (a.start + a.extent * (Float.ofNat i / Float.ofInt steps)) * a.scale

def cell (a : Axis) (steps : Int) (i : Nat) : Int := Number.round (a.place steps i)

end Axis

/-- The least number from `low` on that passes a test which all numbers behind one that passes
    do pass; `high` if none below it does. -/
def firstPassing (test : Nat → Bool) (low high : Nat) : Nat :=
  if low < high then
    let middle := (low + high) / 2
    if test middle then firstPassing test low middle else firstPassing test (middle + 1) high
  else low
termination_by high - low

/-- The places, from the first number to before the second, that round to a cell of the grid. They
    follow each other, because rounding keeps the order of the places. -/
def Axis.visible (a : Axis) (steps : Int) : Nat × Nat :=
  let above (i : Nat) := -0.5 < a.place steps i
  let below (i : Nat) := a.place steps i < Float.ofNat a.cells - 0.5
  let first (test : Nat → Bool) := firstPassing test 0 (steps.toNat + 1)
  if a.extent * a.scale < 0 then (first fun i => below i, first fun i => !above i)
  else (first fun i => above i, first fun i => !below i)

def largest (a b : Float) : Float := if a.isNaN || (!b.isNaN && b < a) then a else b

/-- The cells at `steps + 1` places from one end of a segment to the other, where `steps` exceeds
    the number of cells between them. Cells outside the grid may be left out. -/
def cellsOf (x y : Axis) : List Cell :=
  let steps := Number.truncate (largest x.length y.length) + 1
  if steps < 0 then []
  else
    let (left, right) := x.visible steps
    let (top, bottom) := y.visible steps
    let first := max left top
    (List.range (min right bottom - first)).map fun i =>
      (x.cell steps (first + i), y.cell steps (first + i))

def mark : Bytes := utf8 "•"

def rowText (columns : Nat) (marked : List Int) : Bytes :=
  (List.range columns).flatMap fun (c : Nat) => if marked.contains (c : Int) then mark else [space]

def axis (start stop size : Int) (cells : Nat) : Axis :=
  ⟨Float.ofInt start, Float.ofInt stop - Float.ofInt start, scale cells size, cells⟩

def render (g : Grid) (image : Image) : List Bytes :=
  let cells := image.segments.flatMap fun s =>
    cellsOf (axis s.x1 s.x2 image.width g.columns) (axis s.y1 s.y2 image.height g.rows)
  (List.range g.rows).map fun (r : Nat) =>
    rowText g.columns ((cells.filter fun cell => cell.2 == (r : Int)).map Prod.fst)

end TurtleLogo.Console
