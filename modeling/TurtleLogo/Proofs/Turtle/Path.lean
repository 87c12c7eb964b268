import TurtleLogo.Proofs.Evaluate.Law
import TurtleLogo.Session

/-!
The path of a turtle. What is drawn is what the turtle walked with the pen down: a line from its
place before to its place after for every such move, in order. Programs do nothing to the turtle but
tell it what to do, so a run adds to what is drawn and takes nothing away.
-/
namespace TurtleLogo
namespace Turtle

inductive Operation where
  | move (forward : Bool) (distance : Float)
  | turn (left : Bool) (degrees : Float)
  | setHeading (degrees : Float)
  | home
  | setXY (x y : Float)
  | setPen (down : Bool)

namespace Operation

def moves : Operation → Bool
  | move .. | home | setXY .. => true
  | turn .. | setHeading _ | setPen _ => false

def pen? : Operation → Option Bool
  | setPen down => some down
  | _ => none

end Operation

def apply (t : Turtle) : Operation → Turtle
  | .move forward distance => t.move forward distance
  | .turn left degrees => t.turn left degrees
  | .setHeading degrees => t.setHeading degrees
  | .home => t.home
  | .setXY x y => t.setXY x y
  | .setPen down => t.setPen down

def perform (t : Turtle) (ops : List Operation) : Turtle := ops.foldl apply t

/-- An operation and the turtle as it is told it. -/
structure Step where
  before : Turtle
  operation : Operation

namespace Step

def after (s : Step) : Turtle := s.before.apply s.operation

/-- The line of a move with the pen down, between the rounded places before and after it. -/
def stroke? (s : Step) : Option Segment :=
  if s.operation.moves && s.before.penDown then
    some ⟨Number.round s.before.x, Number.round s.before.y,
      Number.round s.after.x, Number.round s.after.y⟩
  else none

end Step

def steps (t : Turtle) : List Operation → List Step
  | [] => []
  | o :: rest => ⟨t, o⟩ :: (t.apply o).steps rest

def strokes (t : Turtle) (ops : List Operation) : List Segment :=
  (t.steps ops).filterMap Step.stroke?

theorem goTo_segments (t : Turtle) (x y : Float) :
    (t.goTo x y).segments = t.segments ++ if t.penDown then [t.segmentTo x y] else [] := by
  unfold segments goTo
  cases t.penDown <;> simp

theorem apply_segments (t : Turtle) (o : Operation) :
    (t.apply o).segments = t.segments ++ (Step.mk t o).stroke?.toList := by
  have drawn (x y : Float) : (if t.penDown then [t.segmentTo x y] else []) =
      (if t.penDown then some (t.segmentTo x y) else none).toList := by
    cases t.penDown <;> rfl
  cases o with
  | move forward distance => exact (goTo_segments t _ _).trans (congrArg _ (drawn _ _))
  | home => exact (goTo_segments t _ _).trans (congrArg _ (drawn _ _))
  | setXY x y => exact (goTo_segments t _ _).trans (congrArg _ (drawn _ _))
  | _ => exact (List.append_nil _).symm

theorem perform_segments (t : Turtle) (ops : List Operation) :
    (t.perform ops).segments = t.segments ++ t.strokes ops := by
  unfold strokes
  induction ops generalizing t with
  | nil => simp [perform, steps]
  | cons o rest ih =>
    have onward := ih (t.apply o)
    rw [apply_segments, List.append_assoc] at onward
    rw [perform, List.foldl_cons, ← perform, onward, steps]
    cases stroke : (Step.mk t o).stroke? <;> simp [stroke]

theorem perform_append (t : Turtle) (ops more : List Operation) :
    t.perform (ops ++ more) = (t.perform ops).perform more :=
  List.foldl_append

theorem perform_penDown (t : Turtle) (ops : List Operation) :
    (t.perform ops).penDown = (ops.filterMap Operation.pen?).getLastD t.penDown := by
  induction ops generalizing t with
  | nil => rfl
  | cons o rest ih =>
    have onward := ih (t.apply o)
    rw [perform, List.foldl_cons, ← perform, onward]
    cases o with
    | setPen down =>
      have lowered : (Operation.setPen down).pen? = some down := rfl
      rw [List.filterMap_cons_some lowered, List.getLastD_cons]
      rfl
    | _ => rfl

theorem apply_frame (t : Turtle) (o : Operation) :
    if o.moves then
      (t.apply o).heading = t.heading ∧ (t.apply o).previousHeading = t.previousHeading ∧
        (t.apply o).penDown = t.penDown
    else (t.apply o).x = t.x ∧ (t.apply o).y = t.y ∧ (t.apply o).segments = t.segments := by
  cases o <;> exact ⟨rfl, rfl, rfl⟩

theorem perform_still {ops : List Operation} (still : ∀ o ∈ ops, o.moves = false) (t : Turtle) :
    (t.perform ops).x = t.x ∧ (t.perform ops).y = t.y := by
  induction ops generalizing t with
  | nil => exact ⟨rfl, rfl⟩
  | cons o rest ih =>
    have frame := apply_frame t o
    rw [still o List.mem_cons_self, if_neg Bool.false_ne_true] at frame
    obtain ⟨x, y, -⟩ := frame
    have others : ∀ p ∈ rest, p.moves = false := by
      intro p member
      exact still p (List.mem_cons_of_mem o member)
    obtain ⟨later, laterY⟩ := ih others (t.apply o)
    exact ⟨later.trans x, laterY.trans y⟩

theorem steps_split {t : Turtle} {ops : List Operation} {front back : List Step}
    (history : t.steps ops = front ++ back) :
    ∃ later, back = (t.perform (front.map Step.operation)).steps later := by
  induction front generalizing t ops with
  | nil => exact ⟨ops, history.symm⟩
  | cons s front ih =>
    cases ops with
    | nil => cases history
    | cons o rest =>
      obtain ⟨rfl, others⟩ := List.cons.inj history
      exact ih others

theorem before_of_steps {t : Turtle} {ops : List Operation} {front back : List Step} {b : Step}
    (history : t.steps ops = front ++ b :: back) :
    b.before = t.perform (front.map Step.operation) ∧ ∃ rest, b.after.steps rest = back := by
  obtain ⟨later, parts⟩ := steps_split history
  cases later with
  | nil => cases parts
  | cons o rest =>
    obtain ⟨rfl, others⟩ := List.cons.inj parts
    exact ⟨rfl, rest, others.symm⟩

theorem before_of_between {t : Turtle} {ops : List Operation} {front mid back : List Step}
    {a b : Step} (history : t.steps ops = front ++ a :: (mid ++ b :: back)) :
    b.before = a.after.perform (mid.map Step.operation) := by
  obtain ⟨-, rest, between⟩ := before_of_steps history
  exact (before_of_steps between).1

namespace Step

theorem stroke_eq_some {s : Step} {line : Segment} (drawn : s.stroke? = some line) :
    line = ⟨Number.round s.before.x, Number.round s.before.y,
      Number.round s.after.x, Number.round s.after.y⟩ := by
  unfold stroke? at drawn
  split at drawn
  · exact (Option.some.inj drawn).symm
  · cases drawn

theorem still_of_no_stroke {s : Step} (strokeless : s.stroke? = none)
    (lowered : s.operation.moves = true → s.before.penDown = true) : s.operation.moves = false := by
  cases moving : s.operation.moves with
  | false => rfl
  | true =>
    rw [stroke?, moving, lowered moving] at strokeless
    cases strokeless

end Step

/-- The steps that drew two neighbouring lines, and what the turtle did between them. -/
theorem neighbours {t : Turtle} {ops : List Operation} {earlier later : List Segment}
    {line next : Segment} (drawn : t.strokes ops = earlier ++ line :: next :: later) :
    ∃ front a mid b back, t.steps ops = front ++ a :: (mid ++ b :: back) ∧
      front.filterMap Step.stroke? = earlier ∧ a.stroke? = some line ∧
      (∀ s ∈ mid, s.stroke? = none) ∧ b.stroke? = some next ∧
      back.filterMap Step.stroke? = later ∧
      ((∀ s ∈ mid, s.operation.moves = true → s.before.penDown = true) →
        line.x2 = next.x1 ∧ line.y2 = next.y1) := by
  obtain ⟨front, rest, history, before, found⟩ := List.filterMap_eq_append_iff.mp drawn
  obtain ⟨quiet, a, others, rfl, silent, first, more⟩ := List.filterMap_eq_cons_iff.mp found
  obtain ⟨mid, b, back, rfl, still, second, behind⟩ := List.filterMap_eq_cons_iff.mp more
  have whole : t.steps ops = (front ++ quiet) ++ a :: (mid ++ b :: back) := by
    rw [history, List.append_assoc]
  have nothing : quiet.filterMap Step.stroke? = [] := List.filterMap_eq_nil_iff.mpr silent
  refine ⟨front ++ quiet, a, mid, b, back, whole, ?_, first, still, second, behind, ?_⟩
  · rw [List.filterMap_append, before, nothing, List.append_nil]
  · intro lowered
    have unmoved : ∀ o ∈ mid.map Step.operation, o.moves = false := by
      intro o member
      obtain ⟨s, inside, rfl⟩ := List.mem_map.mp member
      exact Step.still_of_no_stroke (still s inside) (lowered s inside)
    obtain ⟨x, y⟩ := perform_still unmoved a.after
    rw [← before_of_between whole] at x y
    rw [Step.stroke_eq_some first, Step.stroke_eq_some second, x, y]
    exact ⟨rfl, rfl⟩

end Turtle

def Machine.Walks (m after : Machine) : Prop := ∃ ops, after.turtle = m.turtle.perform ops

namespace Machine.Walks

theorem of_same {m after : Machine} (same : after.turtle = m.turtle) : m.Walks after := ⟨[], same⟩

theorem trans {a b c : Machine} (first : a.Walks b) (second : b.Walks c) : a.Walks c := by
  obtain ⟨ops, middle⟩ := first
  obtain ⟨more, last⟩ := second
  refine ⟨ops ++ more, ?_⟩
  rw [last, middle, Turtle.perform_append]

theorem change (c : Change) (m : Machine) : m.Walks (c.apply m) := by
  cases c with
  | define p => exact of_same rfl
  | setVariable name value => exact of_same rfl
  | report e => exact of_same rfl
  | setPen down => exact ⟨[.setPen down], rfl⟩
  | move forward distance => exact ⟨[.move forward distance], rfl⟩
  | turn left degrees => exact ⟨[.turn left degrees], rfl⟩
  | home => exact ⟨[.home], rfl⟩
  | setXY x y => exact ⟨[.setXY x y], rfl⟩
  | setHeading degrees => exact ⟨[.setHeading degrees], rfl⟩

end Machine.Walks

/-- A program does nothing to the turtle but tell it what to do. -/
theorem walking_is_law : Law Machine.Walks where
  refl _ := .of_same rfl
  trans := .trans
  tick _ := .of_same rfl
  change := .change
  random _ _ := .of_same rfl
  call _ _ _ inside := inside

theorem runWith_walks (fuel : Nat) (limits : Limits) (cancelledFrom : Option Nat) (s : Session)
    (p : Program) :
    ∃ ops, (s.runWith fuel limits cancelledFrom p).session.turtle = s.turtle.perform ops := by
  unfold Session.runWith
  cases result : s.evaluate fuel limits cancelledFrom p with
  | done signal m =>
    have ends : ((Task.statements p.statements).run fuel ⟨limits, cancelledFrom, p.source⟩
        s.machine).machine? = some m := congrArg Outcome.machine? result
    exact walking_is_law.run ends
  | failed error m =>
    have ends : ((Task.statements p.statements).run fuel ⟨limits, cancelledFrom, p.source⟩
        s.machine).machine? = some m := congrArg Outcome.machine? result
    exact walking_is_law.run ends
  | outOfFuel => exact ⟨[], rfl⟩

theorem execWith_walks (fuel : Nat) (limits : Limits) (cancelledFrom : Option Nat) (s : Session)
    (source : Text.Bytes) :
    ∃ ops, (s.execWith fuel limits cancelledFrom source).session.turtle = s.turtle.perform ops := by
  unfold Session.execWith
  cases parse source with
  | error e => exact ⟨[], rfl⟩
  | ok p => exact runWith_walks fuel limits cancelledFrom s p

open Turtle in
/-- A new turtle has drawn the lines that it walked with the pen down, in order, and the pen is
    where it was put last. So the drawing grows at its end only, and of two neighbouring lines the
    second begins where the first ends, unless the turtle moved with the pen up between them.
    Operations other than moves change neither place nor drawing, and moves change neither heading
    nor pen. A run, however it ends, adds to the drawing what the turtle walked. -/
theorem drawing_is_the_walked_path :
    (∀ ops, (initial.perform ops).segments = initial.strokes ops ∧
      (initial.perform ops).penDown = (ops.filterMap Operation.pen?).getLastD true) ∧
    (∀ ops more, (initial.perform ops).segments <+: (initial.perform (ops ++ more)).segments) ∧
    (∀ ops earlier line next later,
      (initial.perform ops).segments = earlier ++ line :: next :: later →
        ∃ front a mid b back, initial.steps ops = front ++ a :: (mid ++ b :: back) ∧
          front.filterMap Step.stroke? = earlier ∧ a.stroke? = some line ∧
          (∀ s ∈ mid, s.stroke? = none) ∧ b.stroke? = some next ∧
          back.filterMap Step.stroke? = later ∧
          ((∀ s ∈ mid, s.operation.moves = true → s.before.penDown = true) →
            line.x2 = next.x1 ∧ line.y2 = next.y1)) ∧
    (∀ (t : Turtle) o, if o.moves then
        (t.apply o).heading = t.heading ∧ (t.apply o).previousHeading = t.previousHeading ∧
          (t.apply o).penDown = t.penDown
      else (t.apply o).x = t.x ∧ (t.apply o).y = t.y ∧ (t.apply o).segments = t.segments) ∧
    ∀ fuel limits cancelledFrom s,
      (∀ p, ∃ ops, (Session.runWith fuel limits cancelledFrom s p).session.turtle.segments =
        s.turtle.segments ++ s.turtle.strokes ops) ∧
      ∀ source, ∃ ops, (s.execWith fuel limits cancelledFrom source).session.turtle.segments =
        s.turtle.segments ++ s.turtle.strokes ops := by
  have recorded (ops : List Operation) : (initial.perform ops).segments = initial.strokes ops :=
    perform_segments initial ops
  refine ⟨?_, ?_, ?_, apply_frame, ?_⟩
  · intro ops
    exact ⟨recorded ops, perform_penDown initial ops⟩
  · intro ops more
    rw [perform_append, perform_segments (initial.perform ops)]
    exact List.prefix_append _ _
  · intro ops earlier line next later drawn
    rw [recorded] at drawn
    exact neighbours drawn
  · intro fuel limits cancelledFrom s
    constructor
    · intro p
      obtain ⟨ops, turtle⟩ := runWith_walks fuel limits cancelledFrom s p
      exact ⟨ops, by rw [turtle, perform_segments]⟩
    · intro source
      obtain ⟨ops, turtle⟩ := execWith_walks fuel limits cancelledFrom s source
      exact ⟨ops, by rw [turtle, perform_segments]⟩

def thereAndBack : List Turtle.Operation :=
  [.setXY 3 4, .setPen false, .turn true 90, .setPen true, .home]

def lineThere : Segment := ⟨500, 500, 503, 504⟩

def lineBack : Segment := ⟨503, 504, 500, 500⟩

open Turtle in
/-- The way back begins where the way there ends, and a run goes on with the drawing. -/
theorem drawing_is_the_walked_path_of_lifted_pen :
    (initial.perform thereAndBack).segments = [lineThere, lineBack] ∧
      (∃ front a mid b back, initial.steps thereAndBack = front ++ a :: (mid ++ b :: back) ∧
        a.stroke? = some lineThere ∧ (∀ s ∈ mid, s.stroke? = none) ∧ b.stroke? = some lineBack) ∧
      (lineThere.x2 = lineBack.x1 ∧ lineThere.y2 = lineBack.y1) ∧
      (initial.perform [.setXY 3 4]).segments <+: (initial.perform thereAndBack).segments := by
  have drawn : (initial.perform thereAndBack).segments = [lineThere, lineBack] := by
    decide +kernel
  have lowered : ∀ s ∈ initial.steps thereAndBack,
      s.operation.moves = true → s.before.penDown = true := by
    simp [thereAndBack, steps, apply, Operation.moves, initial, setPen]
  obtain ⟨-, grows, consecutive, -⟩ := drawing_is_the_walked_path
  obtain ⟨front, a, mid, b, back, history, -, first, still, second, -, joined⟩ :=
    consecutive thereAndBack [] lineThere lineBack [] drawn
  have between : ∀ s ∈ mid, s ∈ initial.steps thereAndBack := by
    intro s member
    rw [history]
    simp [member]
  exact ⟨drawn, ⟨front, a, mid, b, back, history, first, still, second⟩,
    joined fun s member => lowered s (between s member),
    grows [.setXY 3 4] (thereAndBack.drop 1)⟩

end TurtleLogo
