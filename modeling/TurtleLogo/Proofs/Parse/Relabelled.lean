import TurtleLogo.Parse
import TurtleLogo.Proofs.Program.Moved

/-!
What parsing looks at. Places decide nothing, and neither do spellings that no program keeps. So
tokens may be relabelled: every production does the same with the relabelled tokens as with the
tokens themselves, up to the places of what it returns, and errors and recovery are no exception.
-/
namespace TurtleLogo
open Text

def TokenKind.isSpelled : TokenKind → Bool
  | number | varName | paramName | identifier => true
  | _ => false

/-- Puts tokens in other places and changes spellings that no program keeps. -/
structure Relabelling where
  token : Token → Token
  place : Position → Position
  kind (t : Token) : (token t).kind = t.kind
  pos (t : Token) : (token t).pos = place t.pos
  literal {t : Token} (spelled : t.kind.isSpelled = true) : (token t).literal = t.literal
  ending (finish : Position) : token ⟨.eof, [], finish⟩ = ⟨.eof, [], place finish⟩

attribute [simp] Relabelling.kind Relabelling.pos

variable (r : Relabelling)

def ParseError.under (e : ParseError) : ParseError := ⟨r.token e.token, e.reason⟩

namespace Cursor

def under (c : Cursor) : Cursor := ⟨c.rest.map r.token, r.place c.finish, c.opened, c.arities⟩

variable {r}

@[simp] theorem peek_under (c : Cursor) : (c.under r).peek = r.token c.peek := by
  unfold peek under
  cases c.rest with
  | nil => exact (r.ending c.finish).symm
  | cons t ts => rfl

@[simp] theorem kind_under (c : Cursor) : (c.under r).kind = c.kind := by
  rw [kind, peek_under, r.kind, kind]

@[simp] theorem advance_under (c : Cursor) : (c.under r).advance = c.advance.under r := by
  obtain ⟨rest, finish, opened, arities⟩ := c
  cases rest with
  | nil => rfl
  | cons t ts => simp only [under, advance, List.map_cons, r.kind]

@[simp] theorem declare_under (c : Cursor) (name : Name) (arity : Nat) :
    (c.under r).declare name arity = (c.declare name arity).under r :=
  rfl

@[simp] theorem arity_under (c : Cursor) (name : Name) :
    (c.under r).arity? name = c.arity? name :=
  rfl

@[simp] theorem length_under (c : Cursor) : (c.under r).rest.length = c.rest.length :=
  List.length_map r.token

@[simp] theorem fuel_under (c : Cursor) : (c.under r).fuel = c.fuel := by
  rw [fuel, length_under, fuel]

theorem literal_under {c : Cursor} {k : TokenKind} (same : c.peek.kind = k)
    (spelled : k.isSpelled = true) : (r.token c.peek).literal = c.peek.literal :=
  r.literal (same ▸ spelled)

end Cursor

namespace Parsed

/-- The outcome on relabelled tokens, with the result changed by `f`. -/
def under {α β : Type} (f : α → β) : Parsed α → Parsed β
  | ok value next => ok (f value) (next.under r)
  | fail error resume => fail (error.under r) (resume.under r)

variable {r}

theorem bind_under {α β α' β' : Type} {f : α → α'} {g : β → β'} {read : Parsed α}
    {k : α → Cursor → Parsed β} {k' : α' → Cursor → Parsed β'}
    (later : ∀ a c, read = .ok a c → k' (f a) (c.under r) = (k a c).under r g) :
    (read.under r f).bind k' = (read.bind k).under r g := by
  cases read with
  | ok a c => exact later a c rfl
  | fail error resume => rfl

theorem map_under {α β α' β' : Type} {f : α → α'} {g : β → β'} {read : Parsed α} {k : α → β}
    {k' : α' → β'} (later : ∀ a c, read = .ok a c → k' (f a) = g (k a)) :
    (read.under r f).map k' = (read.map k).under r g := by
  cases read with
  | ok a c => exact congrArg (ok · (c.under r)) (later a c rfl)
  | fail error resume => rfl

end Parsed

namespace Parse
variable {r}

theorem unexpected_under {α β : Type} {f : α → β} (c : Cursor) :
    unexpected (c.under r) = (unexpected c : Parsed α).under r f := by
  simp [unexpected, Parsed.under, ParseError.under]

theorem expected_under {α β : Type} {f : α → β} (what : Expected) (c : Cursor) :
    expected what (c.under r) = (expected what c : Parsed α).under r f := by
  simp [expected, Parsed.under, ParseError.under]

theorem expect_under (k : TokenKind) (c : Cursor) :
    expect k (c.under r) = (expect k c).under r r.token := by
  rw [expect, expect, Cursor.kind_under]
  split
  · simp [Parsed.under]
  · exact expected_under _ c

theorem expect_kind {k : TokenKind} {c next : Cursor} {t : Token}
    (found : expect k c = .ok t next) : t.kind = k := by
  unfold expect at found
  split at found
  · rename_i same
    obtain ⟨rfl, -⟩ := Parsed.ok.inj found
    exact eq_of_beq same
  · simp [expected] at found

structure ExprUnder (r : Relabelling) (n : Nat) : Prop where
  expr (level : Level) (c : Cursor) :
    expr n level (c.under r) = (expr n level c).under r (Expr.moved r.place)
  operators (level : Level) (left : Expr) (c : Cursor) :
    operators n level (left.moved r.place) (c.under r) =
      (operators n level left c).under r (Expr.moved r.place)
  operand (c : Cursor) : operand n (c.under r) = (operand n c).under r (Expr.moved r.place)
  arguments (name : Name) (c : Cursor) :
    arguments n name (c.under r) = (arguments n name c).under r (movedArgs r.place)
  exactArguments (name : Name) (arity : Nat) (c : Cursor) :
    exactArguments n name arity (c.under r) =
      (exactArguments n name arity c).under r (movedArgs r.place)
  openArguments (c : Cursor) :
    openArguments n (c.under r) = (openArguments n c).under r (movedArgs r.place)

section
variable {n : Nat} (ih : ExprUnder r n)
include ih

theorem expr_under_succ (level : Level) (c : Cursor) :
    expr (n + 1) level (c.under r) = (expr (n + 1) level c).under r (Expr.moved r.place) := by
  rw [expr, expr, ih.operand]
  exact Parsed.bind_under fun left next _ => ih.operators level left next

theorem operators_under_succ (level : Level) (left : Expr) (c : Cursor) :
    operators (n + 1) level (left.moved r.place) (c.under r) =
      (operators (n + 1) level left c).under r (Expr.moved r.place) := by
  rw [operators, operators, Cursor.kind_under]
  split
  · rfl
  · split
    · rw [Cursor.advance_under, ih.expr]
      exact Parsed.bind_under fun right next _ => ih.operators level (.binary _ left right) next
    · rfl

theorem operand_under_succ (c : Cursor) :
    operand (n + 1) (c.under r) = (operand (n + 1) c).under r (Expr.moved r.place) := by
  simp only [operand, Cursor.peek_under, Cursor.advance_under, r.kind, r.pos]
  split <;> rename_i same
  · -- a number
    rw [Cursor.literal_under same rfl]
    split <;> rfl
  · rw [Cursor.literal_under same rfl]
    rfl
  · rw [Cursor.literal_under same rfl]
    rfl
  · rw [ih.expr]
    exact Parsed.map_under fun _ _ _ => rfl
  · -- brackets
    rw [ih.expr]
    refine Parsed.bind_under fun inner next _ => ?_
    rw [expect_under]
    exact Parsed.map_under fun _ _ _ => rfl
  · rw [ih.expr]
    exact Parsed.map_under fun _ _ _ => rfl
  · rw [Cursor.literal_under same rfl, ih.arguments]
    exact Parsed.map_under fun _ _ _ => rfl
  · exact unexpected_under c

theorem arguments_under_succ (name : Name) (c : Cursor) :
    arguments (n + 1) name (c.under r) =
      (arguments (n + 1) name c).under r (movedArgs r.place) := by
  rw [arguments, arguments, Cursor.arity_under]
  split
  · exact ih.exactArguments name _ c
  · exact ih.openArguments c

theorem exactArguments_under_succ (name : Name) (arity : Nat) (c : Cursor) :
    exactArguments (n + 1) name arity (c.under r) =
      (exactArguments (n + 1) name arity c).under r (movedArgs r.place) := by
  cases arity with
  | zero => rfl
  | succ arity =>
    rw [exactArguments, exactArguments, Cursor.kind_under]
    split
    · rw [ih.expr]
      refine Parsed.bind_under fun arg next _ => ?_
      rw [ih.exactArguments]
      exact Parsed.map_under fun _ _ _ => rfl
    · exact expected_under _ c

theorem openArguments_under_succ (c : Cursor) :
    openArguments (n + 1) (c.under r) = (openArguments (n + 1) c).under r (movedArgs r.place) := by
  rw [openArguments, openArguments, Cursor.kind_under]
  split
  · rw [ih.expr]
    refine Parsed.bind_under fun arg next _ => ?_
    rw [ih.openArguments]
    exact Parsed.map_under fun _ _ _ => rfl
  · rfl

end

theorem expr_under (r : Relabelling) (n : Nat) : ExprUnder r n := by
  induction n with
  | zero => constructor <;> intros <;> exact unexpected_under _
  | succ n ih =>
    exact ⟨expr_under_succ ih, operators_under_succ ih, operand_under_succ ih,
      arguments_under_succ ih, exactArguments_under_succ ih, openArguments_under_succ ih⟩

theorem expression_under (c : Cursor) :
    expression (c.under r) = (expression c).under r (Expr.moved r.place) := by
  rw [expression, Cursor.fuel_under, (expr_under r _).expr, expression]

theorem parameters_under (n : Nat) (c : Cursor) :
    parameters n (c.under r) = (parameters n c).under r id := by
  induction n generalizing c with
  | zero => rfl
  | succ n ih =>
    rw [parameters, parameters, Cursor.kind_under]
    split
    · rename_i same
      rw [Cursor.advance_under, ih, Cursor.peek_under, Cursor.literal_under (eq_of_beq same) rfl]
      exact Parsed.map_under fun _ _ _ => rfl
    · rfl

structure StmtUnder (r : Relabelling) (n : Nat) : Prop where
  statement (c : Cursor) : statement n (c.under r) = (statement n c).under r (Stmt.moved r.place)
  statementsUntil (close : TokenKind) (c : Cursor) :
    statementsUntil n close (c.under r) = (statementsUntil n close c).under r (movedAll r.place)

theorem statement_under_succ {n : Nat} (ih : StmtUnder r n) (c : Cursor) :
    statement (n + 1) (c.under r) = (statement (n + 1) c).under r (Stmt.moved r.place) := by
  have keyword : ∀ f g : Expr → Stmt, (∀ e : Expr, f (e.moved r.place) = (g e).moved r.place) →
      (expression (c.advance.under r)).map f =
        ((expression c.advance).map g).under r (Stmt.moved r.place) := by
    intro f g same
    rw [expression_under]
    exact Parsed.map_under fun e _ _ => same e
  simp only [statement, Cursor.peek_under, Cursor.advance_under, r.kind, r.pos]
  split <;> rename_i same
  · -- a definition
    rw [expect_under]
    refine Parsed.bind_under fun name afterName found => ?_
    have named : (r.token name).literal = name.literal :=
      r.literal (by rw [expect_kind found]; rfl)
    rw [Cursor.length_under, parameters_under]
    refine Parsed.bind_under fun params afterParams _ => ?_
    rw [named, id, Cursor.declare_under, ih.statementsUntil, r.pos]
    exact Parsed.map_under fun _ _ _ => rfl
  · -- an assignment
    rw [expect_under]
    refine Parsed.bind_under fun name afterName found => ?_
    have named : (r.token name).literal = name.literal :=
      r.literal (by rw [expect_kind found]; rfl)
    rw [named, expression_under]
    exact Parsed.map_under fun _ _ _ => rfl
  · -- a loop
    rw [expression_under]
    refine Parsed.bind_under fun count afterCount _ => ?_
    simp only [Cursor.kind_under, Cursor.peek_under, Cursor.advance_under]
    split <;> rename_i follows
    · rw [ih.statementsUntil]
      exact Parsed.map_under fun _ _ _ => rfl
    · rw [Cursor.literal_under follows rfl]
      rfl
    · exact expected_under _ afterCount
  · -- a test
    rw [expression_under]
    refine Parsed.bind_under fun left afterLeft _ => ?_
    simp only [Cursor.kind_under, Cursor.advance_under]
    split
    · exact expected_under _ afterLeft
    · rw [expression_under]
      refine Parsed.bind_under fun right afterRight _ => ?_
      rw [expect_under]
      refine Parsed.bind_under fun _ afterBracket _ => ?_
      rw [ih.statementsUntil]
      exact Parsed.map_under fun _ _ _ => rfl
  · rfl
  · exact keyword _ _ fun _ => rfl
  · rfl
  · rw [expression_under]
    refine Parsed.bind_under fun x afterX _ => ?_
    rw [expression_under]
    exact Parsed.map_under fun _ _ _ => rfl
  · exact keyword _ _ fun _ => rfl
  · rfl
  · rfl
  · exact keyword _ _ fun _ => rfl
  · exact keyword _ _ fun _ => rfl
  · exact keyword _ _ fun _ => rfl
  · exact keyword _ _ fun _ => rfl
  · -- a call
    rw [Cursor.literal_under same rfl, Cursor.fuel_under, (expr_under r _).arguments]
    exact Parsed.map_under fun _ _ _ => rfl
  · exact unexpected_under c

theorem statementsUntil_under_succ {n : Nat} (ih : StmtUnder r n) (close : TokenKind) (c : Cursor) :
    statementsUntil (n + 1) close (c.under r) =
      (statementsUntil (n + 1) close c).under r (movedAll r.place) := by
  rw [statementsUntil, statementsUntil, Cursor.kind_under, Cursor.advance_under]
  split
  · rfl
  · split
    · exact expected_under _ c
    · rw [ih.statement]
      refine Parsed.bind_under fun s next _ => ?_
      rw [ih.statementsUntil]
      exact Parsed.map_under fun _ _ _ => rfl

theorem stmt_under (r : Relabelling) (n : Nat) : StmtUnder r n := by
  induction n with
  | zero => constructor <;> intros <;> exact unexpected_under _
  | succ n ih => exact ⟨statement_under_succ ih, statementsUntil_under_succ ih⟩

theorem skip_under (finish : Position) (arities : List (Name × Nat)) (opened : List Opener)
    (ts : List Token) :
    skip (r.place finish) arities opened (ts.map r.token) =
      (skip finish arities opened ts).under r := by
  induction ts generalizing opened with
  | nil => rfl
  | cons t ts ih =>
    rw [List.map_cons, skip, skip, r.kind]
    split
    · rfl
    · exact ih _

theorem synchronize_under (c : Cursor) : synchronize (c.under r) = (synchronize c).under r :=
  skip_under c.finish c.arities c.opened c.rest

theorem topLevel_under (n : Nat) (c : Cursor) :
    topLevel n (c.under r) =
      (movedAll r.place (topLevel n c).1, (topLevel n c).2.map (ParseError.under r)) := by
  induction n generalizing c with
  | zero => rfl
  | succ n ih =>
    have empty : (c.under r).rest.isEmpty = c.rest.isEmpty := by simp [Cursor.under]
    rw [topLevel, topLevel, empty, Cursor.fuel_under, (stmt_under r _).statement]
    split
    · rfl
    · cases statement c.fuel c with
      | ok s next => simp only [Parsed.under, ih]; rfl
      | fail error resume => simp only [Parsed.under, synchronize_under, ih]; rfl

end Parse
end TurtleLogo
