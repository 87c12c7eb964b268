import Mathlib.Data.List.Basic
import Mathlib.Logic.Function.Iterate
import TurtleLogo.Proofs.Parse.Bare
import TurtleLogo.Proofs.Parse.Faithful

/-!
Nesting of accepted programs. In a nested word every opener has its partner, with a nested word in
between. The lexemes of a program are a nested word, and so are the tokens of its source text. A
beginning of a nested word leaves open those openers that stand without a partner: these are the
blocks that the parser holds open there, and their number is the sum of the nesting of the tokens.
-/
namespace TurtleLogo

namespace Opener

def kind : Opener → TokenKind
  | bracket => .leftBracket
  | define => .define

def closing : Opener → TokenKind
  | bracket => .rightBracket
  | define => .endDefine

end Opener

/-- Every opener is closed by its own kind of end, in nested order. -/
inductive Nested : List TokenKind → Prop where
  | nil : Nested []
  | plain {k : TokenKind} (neutral : k.nesting = 0) : Nested [k]
  | block {w : List TokenKind} (o : Opener) (inner : Nested w) :
      Nested (o.kind :: (w ++ [o.closing]))
  | append {v w : List TokenKind} (first : Nested v) (second : Nested w) : Nested (v ++ w)

/-- A word leaves openers without a partner, the innermost first. Between them it is nested. -/
inductive LeavesOpen : List TokenKind → List Opener → Prop where
  | closed {w : List TokenKind} (nested : Nested w) : LeavesOpen w []
  | opened {v w : List TokenKind} {outer : List Opener} (o : Opener) (before : LeavesOpen v outer)
      (nested : Nested w) : LeavesOpen (v ++ o.kind :: w) (o :: outer)

def nestingOf : List TokenKind → Int
  | [] => 0
  | k :: w => k.nesting + nestingOf w

def trackAll (opened : List Opener) (w : List TokenKind) : List Opener :=
  w.foldl (fun opened k => track k opened) opened

@[simp] theorem nestingOf_nil : nestingOf [] = 0 := rfl

@[simp] theorem nestingOf_cons (k : TokenKind) (w : List TokenKind) :
    nestingOf (k :: w) = k.nesting + nestingOf w :=
  rfl

@[simp] theorem nestingOf_append (v w : List TokenKind) :
    nestingOf (v ++ w) = nestingOf v + nestingOf w := by
  induction v with
  | nil => rw [List.nil_append, nestingOf_nil, Int.zero_add]
  | cons k v ih => rw [List.cons_append, nestingOf_cons, nestingOf_cons, ih, Int.add_assoc]

@[simp] theorem trackAll_append (opened : List Opener) (v w : List TokenKind) :
    trackAll opened (v ++ w) = trackAll (trackAll opened v) w :=
  List.foldl_append

@[simp] theorem trackAll_cons (opened : List Opener) (k : TokenKind) (w : List TokenKind) :
    trackAll opened (k :: w) = trackAll (track k opened) w :=
  rfl

namespace Opener
variable (o : Opener) (outer : List Opener)

theorem kind_nesting : o.kind.nesting = 1 := by cases o <;> rfl

theorem closing_nesting : o.closing.nesting = -1 := by cases o <;> rfl

theorem track_kind : track o.kind outer = o :: outer := by cases o <;> rfl

theorem track_closing : track o.closing (o :: outer) = outer := by cases o <;> rfl

end Opener

theorem track_neutral {k : TokenKind} (neutral : k.nesting = 0) (opened : List Opener) :
    track k opened = opened := by
  cases k <;> first | rfl | simp [TokenKind.nesting] at neutral

namespace Nested
variable {w : List TokenKind}

theorem of_neutral (neutral : ∀ k ∈ w, k.nesting = 0) : Nested w := by
  induction w with
  | nil => exact .nil
  | cons k w ih =>
    have rest : Nested w := ih fun k' member => neutral k' (List.mem_cons_of_mem k member)
    exact .append (.plain (neutral k List.mem_cons_self)) rest

theorem cons {k : TokenKind} (neutral : k.nesting = 0) (nested : Nested w) : Nested (k :: w) :=
  .append (.plain neutral) nested

theorem brackets (inner : Nested w) : Nested (.leftBracket :: (w ++ [.rightBracket])) :=
  .block .bracket inner

theorem definition (inner : Nested w) : Nested (.define :: (w ++ [.endDefine])) :=
  .block .define inner

theorem nesting_eq_zero (nested : Nested w) : nestingOf w = 0 := by
  induction nested with
  | nil => rfl
  | plain neutral => simp [neutral]
  | block o _ ih => simp [ih, o.kind_nesting, o.closing_nesting]
  | append _ _ first second => simp [first, second]

theorem trackAll_eq (nested : Nested w) (outer : List Opener) : trackAll outer w = outer := by
  induction nested generalizing outer with
  | nil => rfl
  | plain neutral => exact track_neutral neutral outer
  | block o _ ih =>
    rw [trackAll_cons, trackAll_append, o.track_kind, ih]
    exact o.track_closing outer
  | append _ _ first second => rw [trackAll_append, first, second]

end Nested

namespace LeavesOpen
variable {v w : List TokenKind} {opened later : List Opener}

theorem append (first : LeavesOpen v opened) (second : LeavesOpen w later) :
    LeavesOpen (v ++ w) (later ++ opened) := by
  induction second with
  | @closed w nested =>
    cases first with
    | closed before => exact .closed (.append before nested)
    | opened o before inside =>
      rw [List.append_assoc, List.cons_append]
      exact .opened o before (.append inside nested)
  | opened o before nested ih =>
    rw [← List.append_assoc]
    exact .opened o ih nested

theorem opener (o : Opener) : LeavesOpen [o.kind] [o] := .opened o (.closed .nil) .nil

theorem nesting_eq (leaves : LeavesOpen w opened) : nestingOf w = opened.length := by
  induction leaves with
  | closed nested => exact nested.nesting_eq_zero
  | opened o before nested ih => simp [ih, o.kind_nesting, nested.nesting_eq_zero]

theorem trackAll_eq (leaves : LeavesOpen w opened) : trackAll [] w = opened := by
  induction leaves with
  | closed nested => exact nested.trackAll_eq []
  | opened o before nested ih =>
    rw [trackAll_append, ih, trackAll_cons, o.track_kind, nested.trackAll_eq]

end LeavesOpen

theorem Nested.leavesOpen {w front back : List TokenKind} (nested : Nested w)
    (cut : w = front ++ back) : ∃ opened, LeavesOpen front opened := by
  induction nested generalizing front back with
  | nil =>
    obtain ⟨rfl, -⟩ := List.nil_eq_append_iff.mp cut
    exact ⟨[], .closed .nil⟩
  | @plain k neutral =>
    cases front with
    | nil => exact ⟨[], .closed .nil⟩
    | cons _ front =>
      obtain ⟨rfl, rest⟩ := List.cons.inj cut
      obtain ⟨rfl, -⟩ := List.nil_eq_append_iff.mp rest
      exact ⟨[], .closed (.plain neutral)⟩
  | @block w o inner ih =>
    cases front with
    | nil => exact ⟨[], .closed .nil⟩
    | cons _ front =>
      obtain ⟨rfl, rest⟩ := List.cons.inj cut
      rcases List.append_eq_append_iff.mp rest with ⟨middle, rfl, ends⟩ | ⟨middle, inside, -⟩
      · -- the end belongs to the beginning or stands behind it
        cases middle with
        | nil =>
          obtain ⟨opened, leaves⟩ := @ih w [] (List.append_nil w).symm
          rw [List.append_nil]
          exact ⟨_, (LeavesOpen.opener o).append leaves⟩
        | cons _ middle =>
          obtain ⟨rfl, behind⟩ := List.cons.inj ends
          obtain ⟨rfl, -⟩ := List.nil_eq_append_iff.mp behind
          exact ⟨[], .closed (.block o inner)⟩
      · obtain ⟨opened, leaves⟩ := ih inside
        exact ⟨_, (LeavesOpen.opener o).append leaves⟩
  | @append v w first second before behind =>
    rcases List.append_eq_append_iff.mp cut with ⟨middle, rfl, rest⟩ | ⟨middle, inside, -⟩
    · obtain ⟨opened, leaves⟩ := behind rest
      exact ⟨_, (LeavesOpen.closed first).append leaves⟩
    · exact before inside

/-! The lexemes of a program. -/

mutual

theorem expr_neutral : ∀ (e : Expr), ∀ x ∈ e.lexemes, x.kind.nesting = 0
  | .number .. | .param .. | .var .. => by simp [Expr.lexemes, TokenKind.nesting]
  | .negate _ operand => by
    simp only [Expr.lexemes, List.forall_mem_cons]
    exact ⟨rfl, expr_neutral operand⟩
  | .group _ inside => by
    simp only [Expr.lexemes, List.forall_mem_cons, List.forall_mem_append]
    exact ⟨rfl, expr_neutral inside, rfl, nofun⟩
  | .random _ limit => by
    simp only [Expr.lexemes, List.forall_mem_cons]
    exact ⟨rfl, expr_neutral limit⟩
  | .binary op left right => by
    simp only [Expr.lexemes, List.forall_mem_cons, List.forall_mem_append]
    exact ⟨expr_neutral left, by cases op <;> rfl, expr_neutral right⟩
  | .call _ _ args => by
    simp only [Expr.lexemes, List.forall_mem_cons]
    exact ⟨rfl, args_neutral args⟩

theorem args_neutral : ∀ (es : List Expr), ∀ x ∈ lexemesOfArgs es, x.kind.nesting = 0
  | [] => by simp [lexemesOfArgs]
  | e :: rest => by
    simp only [lexemesOfArgs, List.forall_mem_append]
    exact ⟨expr_neutral e, args_neutral rest⟩

end

def Lexeme.kinds (xs : List Lexeme) : List TokenKind := xs.map Lexeme.kind

theorem Lexeme.kinds_neutral {xs : List Lexeme} (neutral : ∀ x ∈ xs, x.kind.nesting = 0) :
    ∀ k ∈ Lexeme.kinds xs, k.nesting = 0 := by
  intro k member
  obtain ⟨x, listed, rfl⟩ := List.mem_map.mp member
  exact neutral x listed

theorem Lexeme.nested_of_neutral {xs : List Lexeme} (neutral : ∀ x ∈ xs, x.kind.nesting = 0) :
    Nested (Lexeme.kinds xs) :=
  .of_neutral (Lexeme.kinds_neutral neutral)

theorem Expr.nested (e : Expr) : Nested (Lexeme.kinds e.lexemes) :=
  Lexeme.nested_of_neutral (expr_neutral e)

def Stmt.hasBody : Stmt → Bool
  | .define .. | .loop .. | .test .. => true
  | _ => false

theorem stmt_neutral (s : Stmt) (plain : s.hasBody = false) :
    ∀ x ∈ s.lexemes, x.kind.nesting = 0 := by
  cases s with
  | define | loop | test => cases plain
  | loopCall _ count _ =>
    simp only [Stmt.lexemes, List.forall_mem_cons, List.forall_mem_append]
    exact ⟨rfl, expr_neutral count, rfl, nofun⟩
  | make _ _ value =>
    simp only [Stmt.lexemes, List.forall_mem_cons]
    exact ⟨rfl, rfl, expr_neutral value⟩
  | setXY _ x y =>
    simp only [Stmt.lexemes, List.forall_mem_cons, List.forall_mem_append]
    exact ⟨rfl, expr_neutral x, expr_neutral y⟩
  | call _ _ args =>
    simp only [Stmt.lexemes, List.forall_mem_cons]
    exact ⟨rfl, args_neutral args⟩
  | move _ forward distance =>
    simp only [Stmt.lexemes, List.forall_mem_cons]
    exact ⟨by cases forward <;> rfl, expr_neutral distance⟩
  | turn _ left angle =>
    simp only [Stmt.lexemes, List.forall_mem_cons]
    exact ⟨by cases left <;> rfl, expr_neutral angle⟩
  | setHeading _ value | output _ value =>
    simp only [Stmt.lexemes, List.forall_mem_cons]
    exact ⟨rfl, expr_neutral value⟩
  | pen _ down =>
    simp only [Stmt.lexemes, List.forall_mem_singleton]
    cases down <;> rfl
  | home | stop =>
    simp only [Stmt.lexemes, List.forall_mem_singleton]
    rfl

mutual

theorem Stmt.nested : ∀ s : Stmt, Nested (Lexeme.kinds s.lexemes)
  | .define _ name namePos params body => by
    have header : Nested (Lexeme.kinds (⟨.identifier, .text name, some namePos⟩ ::
        params.map (⟨.paramName, .sigiled ·, none⟩))) :=
      Lexeme.nested_of_neutral (by simp [TokenKind.nesting])
    have whole := (header.append (nested_stmts body)).definition
    simpa [Stmt.lexemes, Lexeme.kinds, Lexeme.opening, Lexeme.inner] using whole
  | .loop _ count body => by
    have block := (nested_stmts body).brackets
    have whole := (count.nested.append block).cons (k := .loop) rfl
    simpa [Stmt.lexemes, Lexeme.kinds, Lexeme.opening, Lexeme.inner] using whole
  | .test _ left op right body => by
    have block := (nested_stmts body).brackets
    have behind := (right.nested.append block).cons (k := op.kind) (by cases op <;> rfl)
    have whole := (left.nested.append behind).cons (k := .test) rfl
    simpa [Stmt.lexemes, Lexeme.kinds, Lexeme.opening, Lexeme.inner] using whole
  | .make .. | .loopCall .. | .pen .. | .move .. | .turn .. | .home _ | .setXY .. | .setHeading ..
  | .call .. | .stop _ | .output .. => Lexeme.nested_of_neutral (stmt_neutral _ rfl)

theorem nested_stmts : ∀ ss : List Stmt, Nested (Lexeme.kinds (lexemesOf ss))
  | [] => .nil
  | s :: rest => by
    rw [lexemesOf, Lexeme.kinds, List.map_append]
    exact .append s.nested (nested_stmts rest)

end

/-! The parser's own account of open blocks. -/

namespace Cursor

theorem advance_iterate (k : Nat) (c : Cursor) :
    (advance^[k] c).rest = c.rest.drop k ∧
      (advance^[k] c).opened = trackAll c.opened ((c.rest.take k).map Token.kind) := by
  induction k generalizing c with
  | zero => exact ⟨rfl, rfl⟩
  | succ k ih =>
    rw [Function.iterate_succ_apply]
    obtain ⟨rest, opened⟩ := ih c.advance
    cases ahead : c.rest with
    | nil =>
      have stays : c.advance = c := by simp [advance, ahead]
      rw [stays, ahead] at rest opened
      rw [stays, rest, opened]
      simp
    | cons t ts =>
      rw [rest, opened, advance_rest ahead]
      simp [advance, ahead]

/-- Reading moves a cursor on past a number of tokens. The header of a procedure, which may be noted
    on the way, changes neither the tokens ahead nor the open blocks. -/
theorem Reads.advances {c next : Cursor} {xs : List Lexeme} (reads : c.Reads xs next) :
    ∃ k, next.rest = c.rest.drop k ∧
      next.opened = trackAll c.opened ((c.rest.take k).map Token.kind) := by
  induction reads with
  | nil c => exact ⟨0, rfl, rfl⟩
  | @cons c next t ts x xs ahead fits tail ih =>
    obtain ⟨k, rest, opened⟩ := ih
    refine ⟨k + 1, ?_, ?_⟩
    · rw [rest, advance_rest ahead, ahead, List.drop_succ_cons]
    · rw [opened, advance_rest ahead, ahead, List.take_succ_cons]
      simp [advance, ahead]
  | header name arity tail ih => exact ih

theorem Reads.opened {c next : Cursor} {xs : List Lexeme} (reads : c.Reads xs next) :
    next.opened = trackAll c.opened (Lexeme.kinds xs) := by
  induction reads with
  | nil c => rfl
  | @cons c next t ts x xs ahead fits tail ih =>
    have passed : c.advance.opened = track x.kind c.opened := by
      simp [advance, ahead, fits.1.1]
    rw [ih, passed]
    rfl
  | header name arity tail ih => exact ih

end Cursor

theorem kinds_of_fits {xs : List Lexeme} {ts : List Token}
    (fits : List.Forall₂ Lexeme.Fits xs ts) : Lexeme.kinds xs = ts.map Token.kind := by
  induction fits with
  | nil => rfl
  | cons first rest ih =>
    rw [Lexeme.kinds, List.map_cons, List.map_cons, ← first.1.1]
    exact congrArg _ ih

def tokenKinds (source : Text.Bytes) : List TokenKind := (tokenize source).tokens.map Token.kind

section
variable {source : Text.Bytes} {p : Program} (accepted : parse source = .ok p)
include accepted

theorem tokenKinds_eq : tokenKinds source = Lexeme.kinds (lexemesOf p.statements) := by
  rw [tokenKinds, kinds_of_fits (tokens_fit accepted)]

theorem tokens_nested : Nested (tokenKinds source) := by
  rw [tokenKinds_eq accepted]
  exact nested_stmts p.statements

theorem tracked_leavesOpen (k : Nat) :
    LeavesOpen ((tokenKinds source).take k) (trackAll [] ((tokenKinds source).take k)) := by
  obtain ⟨opened, leaves⟩ :=
    (tokens_nested accepted).leavesOpen (List.take_append_drop k (tokenKinds source)).symm
  rw [leaves.trackAll_eq]
  exact leaves

theorem advance_leavesOpen (k : Nat) :
    LeavesOpen ((tokenKinds source).take k)
      (Cursor.advance^[k] (Cursor.ofLexed (tokenize source))).opened := by
  have leaves := tracked_leavesOpen accepted k
  rw [tokenKinds, ← List.map_take] at leaves ⊢
  rw [(Cursor.advance_iterate k _).2]
  exact leaves

theorem reads_leavesOpen {xs : List Lexeme} {c : Cursor}
    (reads : (Cursor.ofLexed (tokenize source)).Reads xs c) :
    ∃ k, c.rest = (tokenize source).tokens.drop k ∧
      LeavesOpen ((tokenKinds source).take k) c.opened := by
  obtain ⟨k, rest, opened⟩ := reads.advances
  refine ⟨k, rest, ?_⟩
  have leaves := tracked_leavesOpen accepted k
  rw [tokenKinds, ← List.map_take] at leaves ⊢
  rw [opened]
  exact leaves

end
end TurtleLogo
