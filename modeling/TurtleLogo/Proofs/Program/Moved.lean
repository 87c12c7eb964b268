import TurtleLogo.Program

/-!
Programs whose nodes are moved to other places. What two programs have in common besides their
places is what remains when every node is moved to the same place, which is no place of a text.
-/
namespace TurtleLogo
variable (place : Position → Position)

mutual

def Expr.moved : Expr → Expr
  | .number pos value => .number (place pos) value
  | .param pos name => .param (place pos) name
  | .var pos name => .var (place pos) name
  | .negate pos operand => .negate (place pos) operand.moved
  | .group pos inner => .group (place pos) inner.moved
  | .random pos limit => .random (place pos) limit.moved
  | .binary op left right => .binary op left.moved right.moved
  | .call pos name args => .call (place pos) name (movedArgs args)

def movedArgs : List Expr → List Expr
  | [] => []
  | e :: rest => e.moved :: movedArgs rest

end

mutual

def Stmt.moved : Stmt → Stmt
  | .define pos name namePos params body =>
    .define (place pos) name (place namePos) params (movedAll body)
  | .make pos name value => .make (place pos) name (value.moved place)
  | .loop pos count body => .loop (place pos) (count.moved place) (movedAll body)
  | .loopCall pos count target => .loopCall (place pos) (count.moved place) target
  | .pen pos down => .pen (place pos) down
  | .move pos forward distance => .move (place pos) forward (distance.moved place)
  | .turn pos left angle => .turn (place pos) left (angle.moved place)
  | .home pos => .home (place pos)
  | .setXY pos x y => .setXY (place pos) (x.moved place) (y.moved place)
  | .setHeading pos angle => .setHeading (place pos) (angle.moved place)
  | .call pos name args => .call (place pos) name (movedArgs place args)
  | .test pos left op right body =>
    .test (place pos) (left.moved place) op (right.moved place) (movedAll body)
  | .stop pos => .stop (place pos)
  | .output pos value => .output (place pos) (value.moved place)

def movedAll : List Stmt → List Stmt
  | [] => []
  | s :: rest => s.moved :: movedAll rest

end

theorem Expr.moved_pos : ∀ e : Expr, (e.moved place).pos = place e.pos
  | .number .. | .param .. | .var .. | .negate .. | .group .. | .random .. | .call .. => rfl
  | .binary _ left _ => Expr.moved_pos left

theorem Stmt.moved_pos (s : Stmt) : (s.moved place).pos = place s.pos := by
  cases s <;> rfl

theorem movedArgs_length (args : List Expr) : (movedArgs place args).length = args.length := by
  induction args with
  | nil => rfl
  | cons e rest ih => rw [movedArgs, List.length_cons, List.length_cons, ih]

mutual

theorem Expr.moved_id : ∀ e : Expr, e.moved id = e
  | .number .. | .param .. | .var .. => rfl
  | .negate _ e | .group _ e | .random _ e => by rw [Expr.moved, Expr.moved_id e, id]
  | .binary _ left right => by rw [Expr.moved, Expr.moved_id left, Expr.moved_id right]
  | .call _ _ args => by rw [Expr.moved, movedArgs_id args, id]

theorem movedArgs_id : ∀ args : List Expr, movedArgs id args = args
  | [] => rfl
  | e :: rest => by rw [movedArgs, Expr.moved_id e, movedArgs_id rest]

end

theorem movedAll_append (front back : List Stmt) :
    movedAll place (front ++ back) = movedAll place front ++ movedAll place back := by
  induction front with
  | nil => rfl
  | cons s rest ih => rw [List.cons_append, movedAll, ih, movedAll, List.cons_append]

section
variable (other : Position → Position)

mutual

theorem Expr.moved_moved : ∀ e : Expr, (e.moved other).moved place = e.moved (place ∘ other)
  | .number .. | .param .. | .var .. => rfl
  | .negate _ e | .group _ e | .random _ e => by
    simp only [Expr.moved, Expr.moved_moved e, Function.comp_apply]
  | .binary _ left right => by
    simp only [Expr.moved, Expr.moved_moved left, Expr.moved_moved right]
  | .call _ _ args => by simp only [Expr.moved, movedArgs_moved args, Function.comp_apply]

theorem movedArgs_moved : ∀ args : List Expr,
    movedArgs place (movedArgs other args) = movedArgs (place ∘ other) args
  | [] => rfl
  | e :: rest => by simp only [movedArgs, Expr.moved_moved e, movedArgs_moved rest]

end

mutual

theorem Stmt.moved_moved : ∀ s : Stmt, (s.moved other).moved place = s.moved (place ∘ other)
  | .define _ _ _ _ body => by simp only [Stmt.moved, movedAll_moved body, Function.comp_apply]
  | .loop _ _ body => by
    simp only [Stmt.moved, Expr.moved_moved, movedAll_moved body, Function.comp_apply]
  | .test _ _ _ _ body => by
    simp only [Stmt.moved, Expr.moved_moved, movedAll_moved body, Function.comp_apply]
  | .make .. | .loopCall .. | .move .. | .turn .. | .setXY .. | .setHeading .. | .output .. => by
    simp only [Stmt.moved, Expr.moved_moved, Function.comp_apply]
  | .call _ _ args => by simp only [Stmt.moved, movedArgs_moved, Function.comp_apply]
  | .pen .. | .home _ | .stop _ => rfl

theorem movedAll_moved : ∀ ss : List Stmt,
    movedAll place (movedAll other ss) = movedAll (place ∘ other) ss
  | [] => rfl
  | s :: rest => by simp only [movedAll, Stmt.moved_moved s, movedAll_moved rest]

end
end

def Stmt.unplaced (s : Stmt) : Stmt := s.moved fun _ => .nowhere

def unplacedAll (ss : List Stmt) : List Stmt := movedAll (fun _ => .nowhere) ss

end TurtleLogo
