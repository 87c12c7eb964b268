import TurtleLogo.Proofs.Parse.Reading
import TurtleLogo.Proofs.Program.Printer

/-!
Printed programs are accepted. Where the tokens ahead spell the lexemes of a node whose operands
are in brackets, the production of the node reads them, stops behind them, and returns the node
up to places and brackets. An expression and a list of open arguments end before every token that
can follow them in a printed program.
-/
namespace TurtleLogo
open Text

def headKind : List Token → TokenKind
  | [] => .eof
  | t :: _ => t.kind

/-- The tokens begin with ones that spell the lexemes, and more follow. -/
def Spelled (xs : List Lexeme) (ts more : List Token) : Prop :=
  ∃ used, ts = used ++ more ∧ List.Forall₂ Lexeme.Spells xs used

namespace Spelled

theorem uncons {x : Lexeme} {xs : List Lexeme} {ts more : List Token}
    (h : Spelled (x :: xs) ts more) :
    ∃ t rest, ts = t :: rest ∧ x.Spells t ∧ Spelled xs rest more := by
  obtain ⟨used, rfl, all⟩ := h
  cases all with
  | @cons _ t _ others spells rest => exact ⟨t, others ++ more, rfl, spells, others, rfl, rest⟩

theorem split {xs ys : List Lexeme} {ts more : List Token} (h : Spelled (xs ++ ys) ts more) :
    ∃ mid, Spelled xs ts mid ∧ Spelled ys mid more := by
  induction xs generalizing ts with
  | nil => exact ⟨ts, ⟨[], rfl, .nil⟩, h⟩
  | cons x xs ih =>
    obtain ⟨t, rest, rfl, spells, tail⟩ := h.uncons
    obtain ⟨mid, ⟨used, rfl, front⟩, back⟩ := ih tail
    exact ⟨mid, ⟨t :: used, rfl, .cons spells front⟩, back⟩

theorem eq_of_nil {ts more : List Token} (h : Spelled [] ts more) : ts = more := by
  obtain ⟨used, rfl, all⟩ := h
  cases all
  rfl

theorem length {xs : List Lexeme} {ts more : List Token} (h : Spelled xs ts more) :
    ts.length = xs.length + more.length := by
  obtain ⟨used, rfl, all⟩ := h
  rw [List.length_append, all.length_eq]

theorem headKind_eq {x : Lexeme} {xs : List Lexeme} {ts more : List Token}
    (h : Spelled (x :: xs) ts more) : headKind ts = x.kind := by
  obtain ⟨t, rest, rfl, spells, -⟩ := h.uncons
  exact spells.1

end Spelled

structure Cursor.Faces (c : Cursor) (xs : List Lexeme) (more : List Token) (known : Arities) :
    Prop where
  spelled : Spelled xs c.rest more
  arities : c.arities = known

abbrev Cursor.StandsAt (c : Cursor) (more : List Token) (known : Arities) : Prop :=
  c.Faces [] more known

namespace Cursor

theorem kind_eq_headKind (c : Cursor) : c.kind = headKind c.rest := by
  cases ahead : c.rest <;> simp [kind, peek, headKind, ahead]

namespace Faces
variable {c : Cursor} {x : Lexeme} {xs ys : List Lexeme} {more : List Token} {known : Arities}

theorem rest_eq (h : c.StandsAt more known) : c.rest = more := h.spelled.eq_of_nil

theorem length (h : c.Faces xs more known) : c.rest.length = xs.length + more.length :=
  h.spelled.length

theorem spells (h : c.Faces (x :: xs) more known) : x.Spells c.peek := by
  obtain ⟨t, rest, ahead, spells, -⟩ := h.spelled.uncons
  rwa [peek_of_rest ahead]

theorem kind (h : c.Faces (x :: xs) more known) : c.peek.kind = x.kind := h.spells.1

theorem advance (h : c.Faces (x :: xs) more known) : c.advance.Faces xs more known := by
  obtain ⟨t, rest, ahead, -, tail⟩ := h.spelled.uncons
  refine ⟨by rwa [advance_rest ahead], ?_⟩
  rw [← h.arities]
  simp [Cursor.advance, ahead]

theorem advance_length (h : c.Faces (x :: xs) more known) :
    c.rest.length = c.advance.rest.length + 1 := by
  have before := h.length
  have after := h.advance.length
  simp only [List.length_cons] at before
  omega

theorem split (h : c.Faces (xs ++ ys) more known) :
    ∃ mid, c.Faces xs mid known ∧ Spelled ys mid more := by
  obtain ⟨mid, front, back⟩ := h.spelled.split
  exact ⟨mid, ⟨front, h.arities⟩, back⟩

theorem resume {c : Cursor} {mid : List Token} (h : c.StandsAt mid known)
    (back : Spelled ys mid more) : c.Faces ys more known :=
  ⟨by rwa [h.rest_eq], h.arities⟩

theorem shortens {next : Cursor} {later : Arities} (h : c.Faces (x :: xs) more known)
    (stands : next.StandsAt more later) : next.rest.length < c.rest.length := by
  rw [stands.rest_eq, h.length, List.length_cons]
  omega

theorem declare (h : c.Faces xs more known) (name : Name) (arity : Nat) :
    (c.declare name arity).Faces xs more ((name, arity) :: known) :=
  ⟨h.spelled, by rw [Cursor.declare, h.arities]⟩

end Faces
end Cursor

namespace Parsed

def Yields {α : Type} (r : Parsed α) (P : α → Prop) (more : List Token) (known : Arities) : Prop :=
  ∃ a next, r = .ok a next ∧ P a ∧ next.StandsAt more known

theorem Yields.bind {α β : Type} {r : Parsed α} {f : α → Cursor → Parsed β} {P : α → Prop}
    {Q : β → Prop} {mid more : List Token} {known later : Arities} (first : r.Yields P mid known)
    (second : ∀ a next, P a → next.StandsAt mid known → (f a next).Yields Q more later) :
    (r.bind f).Yields Q more later := by
  obtain ⟨a, next, rfl, property, stands⟩ := first
  exact second a next property stands

theorem Yields.map {α β : Type} {r : Parsed α} {f : α → β} {P : α → Prop} {Q : β → Prop}
    {more : List Token} {known : Arities} (read : r.Yields P more known)
    (property : ∀ a, P a → Q (f a)) : (r.map f).Yields Q more known := by
  obtain ⟨a, next, rfl, holds, stands⟩ := read
  exact ⟨f a, next, rfl, property a holds, stands⟩

end Parsed

namespace Parse
open Cursor

theorem expect_yields {k : TokenKind} {c : Cursor} {x : Lexeme} {xs : List Lexeme}
    {more : List Token} {known : Arities} (ahead : c.Faces (x :: xs) more known)
    (same : x.kind = k) : expect k c = .ok c.peek c.advance := by
  rw [expect, if_pos (by rw [Cursor.kind, ahead.kind, same]; exact beq_self_eq_true k)]

def endsExpression (k : TokenKind) : Bool := (ArithOp.ofKind? k).isNone && !startsArgument k

section
variable {n : Nat} {c : Cursor} {more : List Token} {known : Arities}

theorem operators_stop {level : Level} {left : Expr} (stands : c.StandsAt more known)
    (ends : ArithOp.ofKind? (headKind more) = none) (fuel : 0 < n) :
    operators n level left c = .ok left c := by
  obtain ⟨n, rfl⟩ := Nat.exists_eq_succ_of_ne_zero (Nat.ne_of_gt fuel)
  rw [operators, kind_eq_headKind, stands.rest_eq, ends]

theorem expr_of_operand {level : Level} {P : Expr → Prop}
    (first : (operand n c).Yields P more known)
    (ends : ArithOp.ofKind? (headKind more) = none) (fuel : 0 < n) :
    (expr (n + 1) level c).Yields P more known := by
  rw [expr]
  refine first.bind fun e next holds stands => ?_
  exact ⟨e, next, operators_stop stands ends fuel, holds, stands⟩

theorem endsExpression_iff {k : TokenKind} :
    endsExpression k = true ↔ ArithOp.ofKind? k = none ∧ startsArgument k = false := by
  simp [endsExpression]

/-- Reading the expression with its operands in brackets gives the expression back. -/
def Rereads (known : Arities) (e : Expr) : Prop :=
  ∀ ⦃n : Nat⦄ ⦃c : Cursor⦄ ⦃more : List Token⦄, c.Faces e.wrapped.lexemes more known →
    endsExpression (headKind more) = true → 4 * c.rest.length + 2 ≤ n →
    (expr n .lowest c).Yields (fun read => read.stripped = e.stripped) more known

theorem operand_group {e : Expr} {pos : Position} (inside : Rereads known e)
    (ahead : c.Faces (Expr.group pos e.wrapped).lexemes more known)
    (fuel : 4 * c.rest.length + 1 ≤ n) :
    (operand n c).Yields (fun read => read.stripped = e.stripped) more known := by
  rw [Expr.lexemes] at ahead
  obtain ⟨n, rfl⟩ : ∃ m, n = m + 1 := ⟨n - 1, by omega⟩
  have shorter := ahead.advance_length
  have opens : c.peek.kind = .leftParen := ahead.kind
  obtain ⟨mid, front, back⟩ := ahead.advance.split
  have closes : endsExpression (headKind mid) = true := by rw [back.headKind_eq]; rfl
  simp only [operand, opens]
  refine (inside front closes (by omega)).bind fun read next same stands => ?_
  have paren := stands.resume back
  rw [expect_yields (k := .rightParen) paren rfl]
  exact ⟨_, _, rfl, same, paren.advance⟩

theorem expr_group {e : Expr} {pos : Position} {level : Level} (inside : Rereads known e)
    (ahead : c.Faces (Expr.group pos e.wrapped).lexemes more known)
    (ends : ArithOp.ofKind? (headKind more) = none) (fuel : 4 * c.rest.length + 2 ≤ n) :
    (expr n level c).Yields (fun read => read.stripped = e.stripped) more known := by
  obtain ⟨n, rfl⟩ : ∃ m, n = m + 1 := ⟨n - 1, by omega⟩
  exact expr_of_operand (operand_group inside ahead (by omega)) ends (by omega)

theorem expression_bracketed {e : Expr} (inside : Rereads known e)
    (ahead : c.Faces e.bracketed.lexemes more known)
    (ends : ArithOp.ofKind? (headKind more) = none) :
    (expression c).Yields (fun read => read.stripped = e.stripped) more known :=
  expr_group inside ahead ends (by rw [fuel]; omega)

theorem no_operator_at_args {es : List Expr} {ts : List Token}
    (ahead : Spelled (lexemesOfArgs (wrappedArgs es)) ts more)
    (ends : endsExpression (headKind more) = true) : ArithOp.ofKind? (headKind ts) = none := by
  cases es with
  | nil =>
    rw [ahead.eq_of_nil]
    exact (endsExpression_iff.mp ends).1
  | cons e rest =>
    rw [ahead.headKind_eq]
    rfl

theorem argument_rereads {e : Expr} {rest : List Expr} {read : Cursor → Parsed (List Expr)}
    (all : ∀ a ∈ e :: rest, Rereads known a)
    (ahead : c.Faces (lexemesOfArgs (wrappedArgs (e :: rest))) more known)
    (ends : endsExpression (headKind more) = true) (fuel : 4 * c.rest.length + 3 ≤ n + 1)
    (others : ∀ next : Cursor, next.Faces (lexemesOfArgs (wrappedArgs rest)) more known →
      4 * next.rest.length + 3 ≤ n →
      (read next).Yields (fun args => strippedArgs args = strippedArgs rest) more known) :
    ((expr n .lowest c).bind fun arg next => (read next).map (arg :: ·)).Yields
      (fun args => strippedArgs args = strippedArgs (e :: rest)) more known := by
  obtain ⟨mid, front, back⟩ := ahead.split
  refine (expr_group (all e (by simp)) front (no_operator_at_args back ends) (by omega)).bind
    fun arg next same stands => ?_
  have fewer := front.shortens stands
  refine (others next (stands.resume back) (by omega)).map fun args later => ?_
  rw [strippedArgs, strippedArgs, same, later]

theorem exactArguments_rereads {name : Name} {es : List Expr} (all : ∀ e ∈ es, Rereads known e)
    (ahead : c.Faces (lexemesOfArgs (wrappedArgs es)) more known)
    (ends : endsExpression (headKind more) = true) (fuel : 4 * c.rest.length + 3 ≤ n) :
    (exactArguments n name es.length c).Yields
      (fun read => strippedArgs read = strippedArgs es) more known := by
  induction es generalizing n c with
  | nil =>
    obtain ⟨n, rfl⟩ : ∃ m, n = m + 1 := ⟨n - 1, by omega⟩
    exact ⟨[], c, rfl, rfl, ahead⟩
  | cons e rest ih =>
    obtain ⟨n, rfl⟩ : ∃ m, n = m + 1 := ⟨n - 1, by omega⟩
    have opens : c.kind = .leftParen := ahead.kind
    simp only [List.length_cons, exactArguments, opens, startsArgument, Bool.true_or, if_true]
    exact argument_rereads all ahead ends fuel fun _ =>
      ih fun a member => all a (List.mem_cons_of_mem e member)

theorem openArguments_rereads {es : List Expr} (all : ∀ e ∈ es, Rereads known e)
    (ahead : c.Faces (lexemesOfArgs (wrappedArgs es)) more known)
    (ends : endsExpression (headKind more) = true) (fuel : 4 * c.rest.length + 3 ≤ n) :
    (openArguments n c).Yields (fun read => strippedArgs read = strippedArgs es) more known := by
  induction es generalizing n c with
  | nil =>
    obtain ⟨n, rfl⟩ : ∃ m, n = m + 1 := ⟨n - 1, by omega⟩
    have stop : startsArgument c.kind = false := by
      rw [kind_eq_headKind, ahead.rest_eq]
      exact (endsExpression_iff.mp ends).2
    simp only [openArguments, stop]
    exact ⟨[], c, rfl, rfl, ahead⟩
  | cons e rest ih =>
    obtain ⟨n, rfl⟩ : ∃ m, n = m + 1 := ⟨n - 1, by omega⟩
    have opens : c.kind = .leftParen := ahead.kind
    simp only [openArguments, opens, startsArgument, if_true]
    exact argument_rereads all ahead ends fuel fun _ =>
      ih fun a member => all a (List.mem_cons_of_mem e member)

/-- A call with a known header reads as many arguments as it has, any other call all that
    follow; both stop where the arguments do. -/
theorem arguments_rereads {name : Name} {es : List Expr} (fits : CallFits known name es.length)
    (all : ∀ e ∈ es, Rereads known e) (ahead : c.Faces (lexemesOfArgs (wrappedArgs es)) more known)
    (ends : endsExpression (headKind more) = true) (fuel : 4 * c.rest.length + 4 ≤ n) :
    (arguments n name c).Yields (fun read => strippedArgs read = strippedArgs es) more known := by
  obtain ⟨n, rfl⟩ : ∃ m, n = m + 1 := ⟨n - 1, by omega⟩
  simp only [arguments, arity?, ahead.arities]
  split
  · rename_i arity found
    rw [← fits arity found]
    exact exactArguments_rereads all ahead ends (by omega)
  · exact openArguments_rereads all ahead ends (by omega)

theorem rereads_of_operand {e : Expr}
    (first : ∀ {n : Nat} {c : Cursor} {more : List Token}, c.Faces e.wrapped.lexemes more known →
      endsExpression (headKind more) = true → 4 * c.rest.length ≤ n →
      (operand (n + 1) c).Yields (fun read => read.stripped = e.stripped) more known) :
    Rereads known e := by
  intro n c more ahead ends fuel
  obtain ⟨n, rfl⟩ : ∃ m, n = m + 2 := ⟨n - 2, by omega⟩
  exact expr_of_operand (first ahead ends (by omega)) (endsExpression_iff.mp ends).1 (by omega)

theorem rereads_atom {e : Expr} {x : Lexeme} (lexemes : e.wrapped.lexemes = [x])
    (reads : ∀ n c, x.Spells c.peek →
      ∃ read, operand (n + 1) c = .ok read c.advance ∧ read.stripped = e.stripped) :
    Rereads known e := by
  refine rereads_of_operand fun {n c more} ahead _ _ => ?_
  rw [lexemes] at ahead
  obtain ⟨read, found, same⟩ := reads n c ahead.spells
  exact ⟨read, c.advance, found, same, ahead.advance⟩

theorem rereads_number {pos : Position} {value : Float} : Rereads known (.number pos value) := by
  refine rereads_atom rfl fun n c spells => ?_
  obtain ⟨kind, read⟩ : c.peek.kind = .number ∧ Number.ofLiteral? c.peek.literal = some value :=
    spells
  exact ⟨.number c.peek.pos value, by simp only [operand, kind, read], rfl⟩

theorem rereads_param {pos : Position} {name : Name} : Rereads known (.param pos name) := by
  refine rereads_atom rfl fun n c spells => ?_
  obtain ⟨kind, named⟩ : c.peek.kind = .paramName ∧ c.peek.literal.drop 1 = name := spells
  exact ⟨.param c.peek.pos name, by simp only [operand, kind, named], rfl⟩

theorem rereads_var {pos : Position} {name : Name} : Rereads known (.var pos name) := by
  refine rereads_atom rfl fun n c spells => ?_
  obtain ⟨kind, named⟩ : c.peek.kind = .varName ∧ c.peek.literal.drop 1 = name := spells
  exact ⟨.var c.peek.pos name, by simp only [operand, kind, named], rfl⟩

theorem rereads_before_group (level : Level) {e inside : Expr} {k : TokenKind} {pos : Position}
    {f : Position → Expr → Expr}
    (lexemes : e.wrapped.lexemes = .opening k pos :: inside.bracketed.lexemes)
    (reads : ∀ n c, c.peek.kind = k →
      operand (n + 1) c = (expr n level c.advance).map (f c.peek.pos))
    (same : ∀ place read, read.stripped = inside.stripped → (f place read).stripped = e.stripped)
    (rereads : Rereads known inside) : Rereads known e := by
  refine rereads_of_operand fun {n c more} ahead ends fuel => ?_
  rw [lexemes] at ahead
  have shorter := ahead.advance_length
  rw [reads n c ahead.kind]
  exact (expr_group rereads ahead.advance (endsExpression_iff.mp ends).1 (by omega)).map (same _)

theorem rereads_negate {pos : Position} {e : Expr} (inside : Rereads known e) :
    Rereads known (.negate pos e) := by
  refine rereads_before_group .sign (f := .negate) rfl (fun n c kind => ?_)
    (fun place read same => ?_) inside
  · simp only [operand, kind]
  · rw [Expr.stripped, Expr.stripped, same]

theorem rereads_random {pos : Position} {e : Expr} (inside : Rereads known e) :
    Rereads known (.random pos e) := by
  refine rereads_before_group .lowest (f := .random) rfl (fun n c kind => ?_)
    (fun place read same => ?_) inside
  · simp only [operand, kind]
  · rw [Expr.stripped, Expr.stripped, same]

theorem rereads_group {pos : Position} {e : Expr} (inside : Rereads known e) :
    Rereads known (.group pos e) := by
  refine rereads_of_operand fun ahead _ fuel => ?_
  rw [Expr.stripped]
  exact operand_group inside ahead (by omega)

theorem rereads_call {pos : Position} {name : Name} {es : List Expr}
    (fits : CallFits known name es.length) (all : ∀ e ∈ es, Rereads known e) :
    Rereads known (.call pos name es) := by
  refine rereads_of_operand fun ahead ends fuel => ?_
  have kind : _ = TokenKind.identifier := ahead.kind
  have named : _ = name := ahead.spells.2
  have shorter := ahead.advance_length
  simp only [operand, kind, named]
  refine (arguments_rereads fits all ahead.advance ends (by omega)).map fun read same => ?_
  rw [Expr.stripped, Expr.stripped, same]

/-- The left operand ends at its bracket, the right one where the expression does, so neither
    takes a part of the other. -/
theorem rereads_binary {op : ArithOp} {left right : Expr} (first : Rereads known left)
    (second : Rereads known right) : Rereads known (.binary op left right) := by
  intro n c more ahead ends fuel
  have ends := (endsExpression_iff.mp ends).1
  obtain ⟨n, rfl⟩ : ∃ m, n = m + 2 := ⟨n - 2, by omega⟩
  obtain ⟨mid, front, back⟩ := ahead.split
  rw [expr]
  refine (operand_group first front (by omega)).bind fun readLeft next sameLeft stands => ?_
  have sign := stands.resume back
  have fewer := front.shortens stands
  have found : ArithOp.ofKind? next.kind = some op := by
    rw [Cursor.kind, sign.kind]
    cases op <;> rfl
  have tighter : Level.rank .lowest < (levelOf op).rank := by cases op <;> decide
  have shorter := sign.advance_length
  simp only [operators, found, if_pos tighter]
  refine (expr_group second sign.advance ends (by omega)).bind
    fun readRight last sameRight finished => ?_
  refine ⟨_, last, operators_stop finished ends (by omega), ?_, finished⟩
  simp only [Expr.stripped, sameLeft, sameRight]

end

mutual

theorem expr_rereads {literal : Float → Bytes} {known : Arities} :
    ∀ e : Expr, e.Writable literal known → Rereads known e
  | .number _ _, _ => rereads_number
  | .param _ _, _ => rereads_param
  | .var _ _, _ => rereads_var
  | .negate _ operand, fine => rereads_negate (expr_rereads operand fine)
  | .group _ inside, fine => rereads_group (expr_rereads inside fine)
  | .random _ limit, fine => rereads_random (expr_rereads limit fine)
  | .binary _ left right, fine =>
    rereads_binary (expr_rereads left fine.1) (expr_rereads right fine.2)
  | .call _ _ args, fine => rereads_call fine.2.1 (args_reread args fine.2.2)

theorem args_reread {literal : Float → Bytes} {known : Arities} :
    ∀ es : List Expr, WritableArgs literal known es → ∀ e ∈ es, Rereads known e
  | [], _ => by simp
  | e :: rest, fine =>
    List.forall_mem_cons.mpr ⟨expr_rereads e fine.1, args_reread rest fine.2⟩

end

def opensStatement (k : TokenKind) : Bool := startsStatement k || k == .identifier

theorem ends_of_opensStatement {k : TokenKind} (opens : opensStatement k = true) :
    endsExpression k = true := by
  revert opens
  cases k <;> decide

theorem wrapped_opens_statement (s : Stmt) :
    ∃ x rest, s.wrapped.lexemes = x :: rest ∧ opensStatement x.kind = true := by
  cases s
  case pen pos down => cases down <;> exact ⟨_, _, rfl, rfl⟩
  case move pos forward distance => cases forward <;> exact ⟨_, _, rfl, rfl⟩
  case turn pos left angle => cases left <;> exact ⟨_, _, rfl, rfl⟩
  all_goals exact ⟨_, _, rfl, rfl⟩

theorem ends_before_statements {ss : List Stmt} {ts more : List Token}
    (ahead : Spelled (lexemesOf (wrappedAll ss)) ts more)
    (ends : endsExpression (headKind more) = true) : endsExpression (headKind ts) = true := by
  cases ss with
  | nil => rwa [ahead.eq_of_nil]
  | cons s rest =>
    obtain ⟨x, xs, lexemes, opens⟩ := wrapped_opens_statement s
    rw [wrappedAll, lexemesOf, lexemes, List.cons_append] at ahead
    rw [ahead.headKind_eq]
    exact ends_of_opensStatement opens

theorem ends_before_block {ss : List Stmt} {close : TokenKind} {ts more : List Token}
    (ahead : Spelled (lexemesOf (wrappedAll ss) ++ [.inner close]) ts more)
    (closing : close = .rightBracket ∨ close = .endDefine) :
    endsExpression (headKind ts) = true := by
  obtain ⟨last, inside, outside⟩ := ahead.split
  refine ends_before_statements inside ?_
  rw [outside.headKind_eq]
  rcases closing with rfl | rfl <;> rfl

def StmtRereads (literal : Float → Bytes) (s : Stmt) : Prop :=
  ∀ ⦃known : Arities⦄ ⦃n : Nat⦄ ⦃c : Cursor⦄ ⦃more : List Token⦄, s.Writable literal known →
    c.Faces s.wrapped.lexemes more known → endsExpression (headKind more) = true →
    2 * c.rest.length + 1 ≤ n →
    (statement n c).Yields (fun read => read.stripped = s.stripped) more (s.declared known)

def BlockRereads (literal : Float → Bytes) (ss : List Stmt) : Prop :=
  ∀ ⦃known : Arities⦄ ⦃n : Nat⦄ ⦃c : Cursor⦄ ⦃more : List Token⦄ ⦃close : TokenKind⦄,
    WritableAll literal known ss →
    c.Faces (lexemesOf (wrappedAll ss) ++ [.inner close]) more known →
    close = .rightBracket ∨ close = .endDefine → 2 * c.rest.length + 2 ≤ n →
    (statementsUntil n close c).Yields (fun read => strippedAll read = strippedAll ss) more
      (declaredBy known ss)

section
variable {literal : Float → Bytes}

theorem block_nil_rereads : BlockRereads literal [] := by
  intro known n c more close _ ahead _ fuel
  obtain ⟨n, rfl⟩ : ∃ m, n = m + 1 := ⟨n - 1, by omega⟩
  have closes : (c.kind == close) = true := by
    rw [Cursor.kind, ahead.kind]
    exact beq_self_eq_true close
  rw [statementsUntil, if_pos closes]
  exact ⟨[], c.advance, rfl, rfl, ahead.advance⟩

theorem block_cons_rereads {s : Stmt} {ss : List Stmt} (first : StmtRereads literal s)
    (others : BlockRereads literal ss) : BlockRereads literal (s :: ss) := by
  intro known n c more close fine ahead closing fuel
  obtain ⟨n, rfl⟩ : ∃ m, n = m + 1 := ⟨n - 1, by omega⟩
  obtain ⟨x, xs, lexemes, opens⟩ := wrapped_opens_statement s
  rw [wrappedAll, lexemesOf, List.append_assoc] at ahead
  obtain ⟨mid, front, back⟩ := ahead.split
  have kind : c.kind = x.kind := by
    rw [lexemes] at front
    exact front.kind
  have goesOn : c.kind ≠ close ∧ c.kind ≠ .eof := by
    rw [kind]
    constructor <;> rintro same
    · rw [same] at opens
      rcases closing with rfl | rfl <;> exact absurd opens (by decide)
    · rw [same] at opens
      exact absurd opens (by decide)
  have ends := ends_before_block back closing
  rw [statementsUntil, if_neg (by simpa using goesOn.1), if_neg (by simpa using goesOn.2)]
  refine (first fine.1 front ends (by omega)).bind fun read next same stands => ?_
  have fewer : next.rest.length < c.rest.length := by
    rw [lexemes] at front
    exact front.shortens stands
  refine (others fine.2 (stands.resume back) closing (by omega)).map fun reads sames => ?_
  rw [strippedAll, strippedAll, same, sames]

theorem parameters_rereads {params : List Name} {n : Nat} {c : Cursor} {more : List Token}
    {known : Arities} (ahead : c.Faces (params.map (⟨.paramName, .sigiled ·, none⟩)) more known)
    (ends : headKind more ≠ .paramName) (fuel : params.length ≤ n) :
    (parameters n c).Yields (fun read => read = params) more known := by
  induction params generalizing n c with
  | nil =>
    have stop : (c.kind == .paramName) = false := by
      rw [kind_eq_headKind, ahead.rest_eq]
      simpa using ends
    cases n with
    | zero => exact ⟨[], c, rfl, rfl, ahead⟩
    | succ n =>
      simp only [parameters, stop]
      exact ⟨[], c, rfl, rfl, ahead⟩
  | cons param rest ih =>
    rw [List.length_cons] at fuel
    obtain ⟨n, rfl⟩ : ∃ m, n = m + 1 := ⟨n - 1, by omega⟩
    have kind : c.kind = .paramName := ahead.kind
    have named : List.drop 1 c.peek.literal = param := ahead.spells.2
    simp only [parameters, kind, named, beq_self_eq_true, if_true]
    exact (ih ahead.advance (by omega)).map fun read same => by rw [same]

theorem define_rereads {pos namePos : Position} {name : Name} {params : List Name}
    {body : List Stmt} (inside : BlockRereads literal body) :
    StmtRereads literal (.define pos name namePos params body) := by
  intro known n c more fine ahead _ fuel
  obtain ⟨n, rfl⟩ : ∃ m, n = m + 1 := ⟨n - 1, by omega⟩
  have kind : c.peek.kind = .define := ahead.kind
  have atName := ahead.advance
  have named : c.advance.peek.literal = name := atName.spells.2
  obtain ⟨mid, front, back⟩ := atName.advance.split
  have ends : headKind mid ≠ .paramName := by
    have body := ends_before_block back (.inr rfl)
    intro same
    rw [same] at body
    exact absurd body (by decide)
  have enough : params.length ≤ c.advance.advance.rest.length := by
    rw [front.length, List.length_map]
    omega
  have before := ahead.advance_length
  have after := atName.advance_length
  simp only [statement, kind]
  rw [expect_yields (k := .identifier) atName rfl]
  simp only [Parsed.bind, named]
  refine (parameters_rereads front ends enough).bind fun read next same stands => ?_
  have fewer : next.rest.length ≤ c.advance.advance.rest.length := by
    rw [front.length, stands.rest_eq]
    omega
  subst same
  -- the header counts in the body already
  have header := (stands.resume back).declare name read.length
  refine (inside fine.2.2 header (.inr rfl) (by simp only [Cursor.declare]; omega)).map
    fun body same => ?_
  rw [Stmt.stripped, Stmt.stripped, same]

theorem keyword_rereads {known : Arities} {c : Cursor} {more : List Token} {e : Expr}
    {x : Lexeme} {f : Expr → Stmt} {s : Stmt} (fine : e.Writable literal known)
    (ahead : c.Faces (x :: e.bracketed.lexemes) more known)
    (ends : endsExpression (headKind more) = true)
    (same : ∀ read : Expr, read.stripped = e.stripped → (f read).stripped = s) :
    ((expression c.advance).map f).Yields (fun read => read.stripped = s) more known :=
  (expression_bracketed (expr_rereads e fine) ahead.advance (endsExpression_iff.mp ends).1).map same

theorem make_rereads {pos : Position} {name : Name} {value : Expr} :
    StmtRereads literal (.make pos name value) := by
  intro known n c more fine ahead ends fuel
  obtain ⟨n, rfl⟩ : ∃ m, n = m + 1 := ⟨n - 1, by omega⟩
  have kind : c.peek.kind = .make := ahead.kind
  have atName := ahead.advance
  have named : List.drop 1 c.advance.peek.literal = name := atName.spells.2
  simp only [statement, kind]
  rw [expect_yields (k := .varName) atName rfl]
  refine keyword_rereads fine.2 atName ends fun read same => ?_
  rw [Stmt.stripped, Stmt.stripped, same, named]

theorem operand_before {known : Arities} {c : Cursor} {more : List Token} {e : Expr} {y : Lexeme}
    {ys : List Lexeme} (fine : e.Writable literal known)
    (ahead : c.Faces (e.bracketed.lexemes ++ y :: ys) more known)
    (ends : ArithOp.ofKind? y.kind = none) :
    ∃ mid, (expression c).Yields (fun read => read.stripped = e.stripped) mid known ∧
      Spelled (y :: ys) mid more ∧ mid.length < c.rest.length := by
  obtain ⟨mid, front, back⟩ := ahead.split
  refine ⟨mid, expression_bracketed (expr_rereads e fine) front ?_, back, ?_⟩
  · rw [back.headKind_eq]
    exact ends
  · rw [front.length]
    simp only [Expr.bracketed, Expr.lexemes, List.length_cons]
    omega

theorem loop_rereads {pos : Position} {count : Expr} {body : List Stmt}
    (inside : BlockRereads literal body) : StmtRereads literal (.loop pos count body) := by
  intro known n c more fine ahead _ fuel
  obtain ⟨n, rfl⟩ : ∃ m, n = m + 1 := ⟨n - 1, by omega⟩
  have kind : c.peek.kind = .loop := ahead.kind
  have before := ahead.advance_length
  obtain ⟨mid, counted, back, shorter⟩ := operand_before fine.1 ahead.advance rfl
  simp only [statement, kind]
  refine counted.bind fun read next same stands => ?_
  have bracket := stands.resume back
  have opens : next.kind = .leftBracket := bracket.kind
  have after := bracket.advance_length
  rw [← stands.rest_eq] at shorter
  simp only [opens]
  refine (inside fine.2 bracket.advance (.inl rfl) (by omega)).map fun reads sames => ?_
  rw [Stmt.stripped, Stmt.stripped, same, sames]

theorem loopCall_rereads {pos : Position} {count : Expr} {target : Name} :
    StmtRereads literal (.loopCall pos count target) := by
  intro known n c more fine ahead _ fuel
  obtain ⟨n, rfl⟩ : ∃ m, n = m + 1 := ⟨n - 1, by omega⟩
  have kind : c.peek.kind = .loop := ahead.kind
  obtain ⟨mid, counted, back, -⟩ := operand_before fine.1 ahead.advance rfl
  simp only [statement, kind]
  refine counted.bind fun read next same stands => ?_
  have atName := stands.resume back
  have identifier : next.kind = .identifier := atName.kind
  have named : next.peek.literal = target := atName.spells.2
  simp only [identifier, named]
  refine ⟨_, _, rfl, ?_, atName.advance⟩
  simp only [Stmt.stripped, same]

theorem test_rereads {pos : Position} {left right : Expr} {op : Comparison} {body : List Stmt}
    (inside : BlockRereads literal body) : StmtRereads literal (.test pos left op right body) := by
  intro known n c more fine ahead _ fuel
  obtain ⟨n, rfl⟩ : ∃ m, n = m + 1 := ⟨n - 1, by omega⟩
  have kind : c.peek.kind = .test := ahead.kind
  have before := ahead.advance_length
  obtain ⟨mid, readLeft, back, shorter⟩ :=
    operand_before fine.1 ahead.advance (by cases op <;> rfl)
  simp only [statement, kind]
  refine readLeft.bind fun first next sameLeft stands => ?_
  have sign := stands.resume back
  have found : Comparison.ofKind? next.kind = some op := by
    rw [Cursor.kind, sign.kind]
    cases op <;> rfl
  have between := sign.advance_length
  obtain ⟨last, readRight, back, shorterStill⟩ := operand_before fine.2.1 sign.advance rfl
  simp only [found]
  refine readRight.bind fun second final sameRight finished => ?_
  have bracket := finished.resume back
  have after := bracket.advance_length
  rw [← stands.rest_eq] at shorter
  rw [← finished.rest_eq] at shorterStill
  rw [expect_yields (k := .leftBracket) bracket rfl]
  refine (inside fine.2.2 bracket.advance (.inl rfl) (by omega)).map fun reads sames => ?_
  rw [Stmt.stripped, Stmt.stripped, sameLeft, sameRight, sames]

theorem setXY_rereads {pos : Position} {x y : Expr} : StmtRereads literal (.setXY pos x y) := by
  intro known n c more fine ahead ends fuel
  obtain ⟨n, rfl⟩ : ∃ m, n = m + 1 := ⟨n - 1, by omega⟩
  have kind : c.peek.kind = .setXY := ahead.kind
  obtain ⟨mid, readX, back, -⟩ := operand_before fine.1 ahead.advance rfl
  simp only [statement, kind]
  refine readX.bind fun first next sameX stands => ?_
  have second := expression_bracketed (expr_rereads y fine.2) (stands.resume back)
    (endsExpression_iff.mp ends).1
  refine second.map fun read sameY => ?_
  rw [Stmt.stripped, Stmt.stripped, sameX, sameY]

theorem call_rereads {pos : Position} {name : Name} {args : List Expr} :
    StmtRereads literal (.call pos name args) := by
  intro known n c more fine ahead ends fuel
  obtain ⟨n, rfl⟩ : ∃ m, n = m + 1 := ⟨n - 1, by omega⟩
  have kind : c.peek.kind = .identifier := ahead.kind
  have named : c.peek.literal = name := ahead.spells.2
  simp only [statement, kind, named]
  refine (arguments_rereads fine.2.1 (args_reread args fine.2.2) ahead.advance ends
    (by rw [Cursor.fuel]; omega)).map fun read same => ?_
  rw [Stmt.stripped, Stmt.stripped, same]

theorem word_rereads {s : Stmt} {k : TokenKind} {pos : Position} {f : Position → Stmt}
    (lexemes : s.wrapped.lexemes = [.opening k pos]) (declares : ∀ known, s.declared known = known)
    (reads : ∀ n c, c.peek.kind = k → statement (n + 1) c = .ok (f c.peek.pos) c.advance)
    (same : ∀ place, (f place).stripped = s.stripped) : StmtRereads literal s := by
  intro known n c more _ ahead _ fuel
  obtain ⟨n, rfl⟩ : ∃ m, n = m + 1 := ⟨n - 1, by omega⟩
  rw [lexemes] at ahead
  rw [reads n c ahead.kind, declares]
  exact ⟨_, c.advance, rfl, same _, ahead.advance⟩

theorem operation_rereads {s : Stmt} {k : TokenKind} {pos : Position} {e : Expr}
    {f : Position → Expr → Stmt}
    (lexemes : s.wrapped.lexemes = .opening k pos :: e.bracketed.lexemes)
    (declares : ∀ known, s.declared known = known)
    (operand : ∀ known, s.Writable literal known → e.Writable literal known)
    (reads : ∀ n c, c.peek.kind = k →
      statement (n + 1) c = (expression c.advance).map (f c.peek.pos))
    (same : ∀ place read, read.stripped = e.stripped → (f place read).stripped = s.stripped) :
    StmtRereads literal s := by
  intro known n c more fine ahead ends fuel
  obtain ⟨n, rfl⟩ : ∃ m, n = m + 1 := ⟨n - 1, by omega⟩
  rw [lexemes] at ahead
  rw [reads n c ahead.kind, declares]
  exact keyword_rereads (operand known fine) ahead ends (same _)

theorem pen_rereads {pos : Position} {down : Bool} : StmtRereads literal (.pen pos down) :=
  word_rereads (f := (.pen · down)) rfl (fun _ => rfl)
    (fun n c kind => by simp only [statement, kind]; cases down <;> rfl) fun _ => rfl

theorem home_rereads {pos : Position} : StmtRereads literal (.home pos) :=
  word_rereads (f := .home) rfl (fun _ => rfl)
    (fun n c kind => by simp only [statement, kind]) fun _ => rfl

theorem stop_rereads {pos : Position} : StmtRereads literal (.stop pos) :=
  word_rereads (f := .stop) rfl (fun _ => rfl)
    (fun n c kind => by simp only [statement, kind]) fun _ => rfl

theorem move_rereads {pos : Position} {forward : Bool} {distance : Expr} :
    StmtRereads literal (.move pos forward distance) :=
  operation_rereads (f := (.move · forward)) rfl (fun _ => rfl) (fun _ fine => fine)
    (fun n c kind => by simp only [statement, kind]; cases forward <;> rfl)
    fun place read same => by rw [Stmt.stripped, Stmt.stripped, same]

theorem turn_rereads {pos : Position} {left : Bool} {angle : Expr} :
    StmtRereads literal (.turn pos left angle) :=
  operation_rereads (f := (.turn · left)) rfl (fun _ => rfl) (fun _ fine => fine)
    (fun n c kind => by simp only [statement, kind]; cases left <;> rfl)
    fun place read same => by rw [Stmt.stripped, Stmt.stripped, same]

theorem setHeading_rereads {pos : Position} {angle : Expr} :
    StmtRereads literal (.setHeading pos angle) :=
  operation_rereads (f := .setHeading) rfl (fun _ => rfl) (fun _ fine => fine)
    (fun n c kind => by simp only [statement, kind])
    fun place read same => by rw [Stmt.stripped, Stmt.stripped, same]

theorem output_rereads {pos : Position} {value : Expr} :
    StmtRereads literal (.output pos value) :=
  operation_rereads (f := .output) rfl (fun _ => rfl) (fun _ fine => fine)
    (fun n c kind => by simp only [statement, kind])
    fun place read same => by rw [Stmt.stripped, Stmt.stripped, same]

mutual

theorem stmt_rereads : ∀ s : Stmt, StmtRereads literal s
  | .define _ _ _ _ body => define_rereads (block_rereads body)
  | .make _ _ _ => make_rereads
  | .loop _ _ body => loop_rereads (block_rereads body)
  | .loopCall _ _ _ => loopCall_rereads
  | .pen _ _ => pen_rereads
  | .move _ _ _ => move_rereads
  | .turn _ _ _ => turn_rereads
  | .home _ => home_rereads
  | .setXY _ _ _ => setXY_rereads
  | .setHeading _ _ => setHeading_rereads
  | .call _ _ _ => call_rereads
  | .test _ _ _ _ body => test_rereads (block_rereads body)
  | .stop _ => stop_rereads
  | .output _ _ => output_rereads

theorem block_rereads : ∀ ss : List Stmt, BlockRereads literal ss
  | [] => block_nil_rereads
  | s :: rest => block_cons_rereads (stmt_rereads s) (block_rereads rest)

end

theorem topLevel_rereads {ss : List Stmt} {known : Arities} {n : Nat} {c : Cursor}
    (fine : WritableAll literal known ss) (ahead : c.Faces (lexemesOf (wrappedAll ss)) [] known)
    (fuel : c.rest.length < n) :
    ∃ read, topLevel n c = (read, []) ∧ strippedAll read = strippedAll ss := by
  induction ss generalizing known n c with
  | nil =>
    obtain ⟨n, rfl⟩ : ∃ m, n = m + 1 := ⟨n - 1, by omega⟩
    have done : c.rest = [] := ahead.rest_eq
    exact ⟨[], by simp [topLevel, done], rfl⟩
  | cons s rest ih =>
    obtain ⟨n, rfl⟩ : ∃ m, n = m + 1 := ⟨n - 1, by omega⟩
    obtain ⟨x, xs, lexemes, -⟩ := wrapped_opens_statement s
    obtain ⟨mid, front, back⟩ := ahead.split
    obtain ⟨read, next, found, same, stands⟩ := stmt_rereads s fine.1 front
      (ends_before_statements back rfl) (n := c.fuel) (by rw [Cursor.fuel]; omega)
    rw [lexemes] at front
    have shorter := front.shortens stands
    obtain ⟨reads, others, sames⟩ := ih fine.2 (stands.resume back) (n := n) (by omega)
    have more : c.rest.isEmpty = false := by
      rw [List.isEmpty_eq_false_iff_exists_mem]
      obtain ⟨t, tail, tokens, -⟩ := front.spelled.uncons
      exact ⟨t, by simp [tokens]⟩
    refine ⟨read :: reads, ?_, by rw [strippedAll, strippedAll, same, sames]⟩
    simp [topLevel, more, found, others]

end

end Parse

/-- Printing a program and reading it back gives the same program, up to places and brackets. -/
theorem parse_printed (literal : Float → Bytes) (ss : List Stmt)
    (writable : WritableAll literal [] ss) :
    ∃ p, parse (printed literal ss) = .ok p ∧ strippedAll p.statements = strippedAll ss := by
  obtain ⟨errors, spells⟩ := lexed_printedLexemes (stmts_printable ss writable) Position.start
  have ahead : (Cursor.ofLexed (tokenize (printed literal ss))).Faces
      (lexemesOf (wrappedAll ss)) [] [] := ⟨⟨_, (List.append_nil _).symm, spells⟩, rfl⟩
  obtain ⟨read, found, same⟩ := Parse.topLevel_rereads writable ahead (Nat.lt_succ_self _)
  refine ⟨⟨read, printed literal ss⟩, ?_, same⟩
  have clean : (tokenize (printed literal ss)).errors.isEmpty = true :=
    List.isEmpty_iff.mpr errors
  have parsed : Parse.topLevel ((tokenize (printed literal ss)).tokens.length + 1)
      (Cursor.ofLexed (tokenize (printed literal ss))) = (read, []) := found
  simp [parse, clean, parsed]

theorem parse_printed_square :
    ∃ p, parse (printed (fun _ => utf8 "50")
        [.define .nowhere (utf8 "sq") .nowhere [utf8 "n"]
          [.move .nowhere true (.binary .minus (.param .nowhere (utf8 "n")) (.number .nowhere 50))],
         .call .nowhere (utf8 "sq") [.number .nowhere 50],
         .loopCall .nowhere (.number .nowhere 50) (utf8 "turn")]) = .ok p ∧
      strippedAll p.statements =
        [.define .nowhere (utf8 "sq") .nowhere [utf8 "n"]
          [.move .nowhere true (.binary .minus (.param .nowhere (utf8 "n")) (.number .nowhere 50))],
         .call .nowhere (utf8 "sq") [.number .nowhere 50],
         .loopCall .nowhere (.number .nowhere 50) (utf8 "turn")] := by
  have sq : IsProcedureName (utf8 "sq") :=
    ⟨by decide, fun reserved => absurd (mem_keywords.mp reserved) (by decide)⟩
  have turn : IsProcedureName (utf8 "turn") :=
    ⟨by decide, fun reserved => absurd (mem_keywords.mp reserved) (by decide)⟩
  have fifty : Scan.isDecimal (utf8 "50") = true ∧ Number.ofLiteral? (utf8 "50") = some 50 := by
    decide
  have fits : CallFits [(utf8 "sq", 1)] (utf8 "sq") 1 := by
    intro arity found
    exact Option.some.inj found
  have n : Scan.isName (utf8 "n") = true := by decide
  exact parse_printed _ _
    ⟨⟨sq, by decide, ⟨n, fifty⟩, trivial⟩, ⟨sq, fits, fifty, trivial⟩, ⟨fifty, turn⟩, trivial⟩

example : printed (fun _ => utf8 "50")
    [.define .nowhere (utf8 "sq") .nowhere [utf8 "n"]
      [.move .nowhere true (.negate .nowhere (.param .nowhere (utf8 "n")))],
     .call .nowhere (utf8 "sq") [.number .nowhere 50]] =
    utf8 "to sq :n forward (-(:n)) end sq (50)" := by
  decide

end TurtleLogo
