import TurtleLogo.Number.Binary64

/-!
The turtle on its canvas. It has a place, a heading and a pen, and leaves a segment,
with its ends rounded to whole units, for every move it makes with the pen down. The
vertical axis grows downward: forward at heading 90 goes up.
-/
namespace TurtleLogo

structure Segment where
  x1 : Int
  y1 : Int
  x2 : Int
  y2 : Int
  deriving DecidableEq, Repr

def canvasWidth : Nat := 1000

def canvasHeight : Nat := 1000

def originX : Float := 500

def originY : Float := 500

/-- The trail holds the segments drawn so far, the latest first. -/
structure Turtle where
  x : Float
  y : Float
  heading : Float
  previousHeading : Float
  penDown : Bool
  trail : List Segment
  deriving DecidableEq

namespace Turtle

def initial : Turtle := ⟨originX, originY, 90, 90, true, []⟩

def normalizeHeading (degrees : Float) : Float :=
  let h := Number.remainder (Number.remainder degrees 360 + 360) 360
  if h == 360 then 0 else h

def radiansPerDegree : Float := 0.017453292519943295769236907684886127

def segmentTo (t : Turtle) (x y : Float) : Segment :=
  ⟨Number.round t.x, Number.round t.y, Number.round x, Number.round y⟩

def goTo (t : Turtle) (x y : Float) : Turtle :=
  { t with x := x, y := y, trail := if t.penDown then t.segmentTo x y :: t.trail else t.trail }

def move (t : Turtle) (forward : Bool) (distance : Float) : Turtle :=
  let length := if forward then -distance else distance
  let radians := t.heading * radiansPerDegree
  t.goTo (length * radians.cos + t.x) (length * radians.sin + t.y)

def turn (t : Turtle) (left : Bool) (degrees : Float) : Turtle :=
  { t with
    previousHeading := t.heading
    heading := normalizeHeading (t.heading + (if left then -degrees else degrees)) }

def setHeading (t : Turtle) (degrees : Float) : Turtle :=
  { t with previousHeading := normalizeHeading degrees, heading := normalizeHeading degrees }

def home (t : Turtle) : Turtle := t.goTo originX originY

def setXY (t : Turtle) (x y : Float) : Turtle := t.goTo (originX + x) (originY + y)

def setPen (t : Turtle) (down : Bool) : Turtle := { t with penDown := down }

def segments (t : Turtle) : List Segment := t.trail.reverse

end Turtle
end TurtleLogo
