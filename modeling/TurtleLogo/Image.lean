import TurtleLogo.Text.Bytes
import TurtleLogo.Turtle

/-!
Drawings: the size of the canvas and the segments in drawing order, written as an SVG
element that holds one black line for each segment.
-/
namespace TurtleLogo
open Text

structure Image where
  width : Int
  height : Int
  segments : List Segment
  deriving DecidableEq, Repr

def Turtle.image (t : Turtle) : Image := ⟨canvasWidth, canvasHeight, t.segments⟩

def Segment.svg (s : Segment) : Bytes :=
  utf8 "<line x1=\"" ++ signedDecimal s.x1 ++ utf8 "\" y1=\"" ++ signedDecimal s.y1 ++
    utf8 "\" x2=\"" ++ signedDecimal s.x2 ++ utf8 "\" y2=\"" ++ signedDecimal s.y2 ++
    utf8 "\" stroke=\"black\" />"

def Image.svg (image : Image) : Bytes :=
  utf8 "<svg viewBox=\"0 0 " ++ signedDecimal image.width ++ [space] ++
    signedDecimal image.height ++
    utf8 "\" xmlns=\"http://www.w3.org/2000/svg\">" ++ image.segments.flatMap Segment.svg ++
    utf8 "</svg>"

def Image.defaultPath : Bytes := utf8 "turtle.svg"

end TurtleLogo
