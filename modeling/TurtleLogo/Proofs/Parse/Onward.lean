import TurtleLogo.Proofs.Parse.Nesting

/-!
Where reading goes. A production passes tokens, and blocks are opened and closed by them, whether it
succeeds or fails. If it fails it blames one token, as an invalid number only if it is a number, and
reading resumes in front of that token or behind it.
-/
namespace TurtleLogo

namespace Cursor

def ahead (c : Cursor) : List Token := c.rest ++ [⟨.eof, [], c.finish⟩]

def LeadsTo (c d : Cursor) : Prop :=
  ∃ passed, c.rest = passed ++ d.rest ∧ d.finish = c.finish ∧
    d.opened = trackAll c.opened (passed.map Token.kind)

theorem leadsTo_refl (c : Cursor) : c.LeadsTo c := ⟨[], rfl, rfl, rfl⟩

theorem leadsTo_advance (c : Cursor) : c.LeadsTo c.advance := by
  unfold advance
  split
  · exact c.leadsTo_refl
  · rename_i t rest found
    exact ⟨[t], found, rfl, rfl⟩

theorem leadsTo_declare (c : Cursor) (name : Name) (arity : Nat) :
    c.LeadsTo (c.declare name arity) :=
  ⟨[], rfl, rfl, rfl⟩

theorem LeadsTo.trans {c d e : Cursor} (first : c.LeadsTo d) (second : d.LeadsTo e) :
    c.LeadsTo e := by
  obtain ⟨passed, rest, finish, opened⟩ := first
  obtain ⟨more, restMore, finishMore, openedMore⟩ := second
  refine ⟨passed ++ more, ?_, finishMore.trans finish, ?_⟩
  · rw [rest, restMore, List.append_assoc]
  · rw [openedMore, opened, List.map_append, trackAll_append]

theorem LeadsTo.ahead {c d : Cursor} (leads : c.LeadsTo d) : d.ahead <:+ c.ahead := by
  obtain ⟨passed, rest, finish, -⟩ := leads
  refine ⟨passed, ?_⟩
  rw [Cursor.ahead, Cursor.ahead, rest, finish, List.append_assoc]

theorem LeadsTo.length_le {c d : Cursor} (leads : c.LeadsTo d) : d.rest.length ≤ c.rest.length := by
  obtain ⟨passed, rest, -⟩ := leads
  rw [rest, List.length_append]
  exact Nat.le_add_left _ _

theorem LeadsTo.rest_ne_nil {c d : Cursor} (leads : c.LeadsTo d) (more : d.rest ≠ []) :
    c.rest ≠ [] := by
  obtain ⟨passed, rest, -⟩ := leads
  rw [rest]
  exact List.append_ne_nil_of_right_ne_nil passed more

theorem ahead_eq {c : Cursor} (more : c.rest ≠ []) : c.ahead = c.peek :: c.advance.ahead := by
  obtain ⟨t, rest, found⟩ := List.exists_cons_of_ne_nil more
  rw [ahead, peek_of_rest found, ahead, advance_rest found, found, advance, found]
  rfl

theorem LeadsTo.advance_ahead {c d : Cursor} (leads : c.LeadsTo d) (more : d.rest ≠ []) :
    d.advance.ahead <:+ c.advance.ahead := by
  have suffix := leads.ahead
  rw [ahead_eq more, ahead_eq (leads.rest_ne_nil more)] at suffix
  rcases List.suffix_cons_iff.mp suffix with same | further
  · exact ⟨[], (List.cons.inj same).2⟩
  · exact (List.suffix_cons _ _).trans further

theorem peek_ahead (c : Cursor) : [c.peek].Sublist c.ahead := by
  by_cases done : c.rest = []
  · rw [ahead, peek, done]
    exact List.Sublist.refl _
  · rw [ahead_eq done]
    exact .cons_cons _ (List.nil_sublist _)

end Cursor

/-- The error is about the token in front of which reading came to a halt. -/
structure ParseError.Blames (e : ParseError) (culprit resume : Cursor) : Prop where
  token : e.token = culprit.peek
  number : e.reason = .invalidNumber → culprit.kind = .number
  resumes : resume = culprit ∨ resume = culprit.advance

namespace Parsed

/-- Reading from the cursor on succeeds further on, or a token there is blamed. -/
def Onward {α : Type} (c : Cursor) : Parsed α → Prop
  | ok _ next => c.LeadsTo next
  | fail error resume => ∃ culprit, c.LeadsTo culprit ∧ error.Blames culprit resume

variable {α β : Type} {c d : Cursor} {r : Parsed α}

theorem Onward.after (leads : c.LeadsTo d) (onward : r.Onward d) : r.Onward c := by
  cases r with
  | ok a next => exact leads.trans onward
  | fail error resume =>
    obtain ⟨culprit, further, blamed⟩ := onward
    exact ⟨culprit, leads.trans further, blamed⟩

theorem Onward.bind {f : α → Cursor → Parsed β} (first : r.Onward c)
    (second : ∀ a next, (f a next).Onward next) : (r.bind f).Onward c := by
  cases r with
  | ok a next => exact (second a next).after first
  | fail error resume => exact first

theorem Onward.map (f : α → β) (onward : r.Onward c) : (r.map f).Onward c := by
  cases r with
  | ok a next => exact onward
  | fail error resume => exact onward

theorem Onward.leadsTo {error : ParseError} {resume : Cursor}
    (onward : (fail error resume : Parsed α).Onward c) : c.LeadsTo resume := by
  obtain ⟨culprit, leads, -, -, rfl | rfl⟩ := onward
  · exact leads
  · exact leads.trans culprit.leadsTo_advance

end Parsed

namespace Parse

theorem unexpected_onward {α : Type} (c : Cursor) : (unexpected c : Parsed α).Onward c :=
  ⟨c, c.leadsTo_refl, rfl, nofun, .inr rfl⟩

theorem expected_onward {α : Type} (what : Expected) (c : Cursor) :
    (expected what c : Parsed α).Onward c :=
  ⟨c, c.leadsTo_refl, rfl, nofun, .inl rfl⟩

theorem expect_onward (k : TokenKind) (c : Cursor) : (expect k c).Onward c := by
  unfold expect
  split
  · exact c.leadsTo_advance
  · exact expected_onward _ c

theorem onward_advance {α : Type} {c : Cursor} {r : Parsed α} (onward : r.Onward c.advance) :
    r.Onward c :=
  onward.after c.leadsTo_advance

structure ExprOnward (n : Nat) : Prop where
  expr (level : Level) (c : Cursor) : (expr n level c).Onward c
  operators (level : Level) (left : Expr) (c : Cursor) : (operators n level left c).Onward c
  operand (c : Cursor) : (operand n c).Onward c
  arguments (name : Name) (c : Cursor) : (arguments n name c).Onward c
  exactArguments (name : Name) (arity : Nat) (c : Cursor) :
    (exactArguments n name arity c).Onward c
  openArguments (c : Cursor) : (openArguments n c).Onward c

section
variable {n : Nat} (ih : ExprOnward n)
include ih

theorem operators_onward_succ (level : Level) (left : Expr) (c : Cursor) :
    (operators (n + 1) level left c).Onward c := by
  rw [operators]
  split
  · exact c.leadsTo_refl
  · split
    · apply onward_advance
      apply Parsed.Onward.bind (ih.expr _ _)
      intro right next
      exact ih.operators _ _ next
    · exact c.leadsTo_refl

theorem operand_onward_succ (c : Cursor) : (operand (n + 1) c).Onward c := by
  rw [operand]
  split
  · -- the only place where a number is rejected
    rename_i number
    split
    · exact c.leadsTo_advance
    · exact ⟨c, c.leadsTo_refl, rfl, fun _ => number, .inr rfl⟩
  · exact c.leadsTo_advance
  · exact c.leadsTo_advance
  · exact onward_advance ((ih.expr _ _).map _)
  · apply onward_advance
    apply Parsed.Onward.bind (ih.expr _ _)
    intro inner next
    exact (expect_onward _ next).map _
  · exact onward_advance ((ih.expr _ _).map _)
  · exact onward_advance ((ih.arguments _ _).map _)
  · exact unexpected_onward c

theorem exactArguments_onward_succ (name : Name) (arity : Nat) (c : Cursor) :
    (exactArguments (n + 1) name arity c).Onward c := by
  cases arity with
  | zero => exact c.leadsTo_refl
  | succ arity =>
    rw [exactArguments]
    split
    · apply Parsed.Onward.bind (ih.expr _ _)
      intro arg next
      exact (ih.exactArguments name arity next).map _
    · exact expected_onward _ c

theorem openArguments_onward_succ (c : Cursor) : (openArguments (n + 1) c).Onward c := by
  rw [openArguments]
  split
  · apply Parsed.Onward.bind (ih.expr _ _)
    intro arg next
    exact (ih.openArguments next).map _
  · exact c.leadsTo_refl

end

theorem expr_onward (n : Nat) : ExprOnward n := by
  induction n with
  | zero => constructor <;> intros <;> exact unexpected_onward _
  | succ n ih =>
    constructor
    · intro level c
      rw [expr]
      exact (ih.operand c).bind fun left next => ih.operators level left next
    · exact operators_onward_succ ih
    · exact operand_onward_succ ih
    · intro name c
      rw [arguments]
      split
      · exact ih.exactArguments name _ c
      · exact ih.openArguments c
    · exact exactArguments_onward_succ ih
    · exact openArguments_onward_succ ih

theorem expression_onward (c : Cursor) : (expression c).Onward c := (expr_onward _).expr _ c

theorem parameters_onward (n : Nat) (c : Cursor) : (parameters n c).Onward c := by
  induction n generalizing c with
  | zero => exact c.leadsTo_refl
  | succ n ih =>
    rw [parameters]
    split
    · exact onward_advance ((ih c.advance).map _)
    · exact c.leadsTo_refl

structure StmtOnward (n : Nat) : Prop where
  statement (c : Cursor) : (statement n c).Onward c
  statementsUntil (close : TokenKind) (c : Cursor) : (statementsUntil n close c).Onward c

theorem statement_onward_succ {n : Nat} (ih : StmtOnward n) (c : Cursor) :
    (statement (n + 1) c).Onward c.advance ∨
      startsStatement c.kind = false ∧ statement (n + 1) c = unexpected c := by
  have keyword : ∀ f : Expr → Stmt, ((expression c.advance).map f).Onward c.advance := by
    intro f
    exact (expression_onward _).map f
  rw [statement]
  split
  · -- a definition
    left
    apply Parsed.Onward.bind (expect_onward _ _)
    intro name afterName
    apply Parsed.Onward.bind (parameters_onward _ _)
    intro params afterParams
    exact ((ih.statementsUntil _ _).map _).after (afterParams.leadsTo_declare _ _)
  · left
    apply Parsed.Onward.bind (expect_onward _ _)
    intro name afterName
    exact (expression_onward _).map _
  · -- a loop
    left
    apply Parsed.Onward.bind (expression_onward _)
    intro count afterCount
    split
    · exact onward_advance ((ih.statementsUntil _ _).map _)
    · exact afterCount.leadsTo_advance
    · exact expected_onward _ afterCount
  · -- a test
    left
    apply Parsed.Onward.bind (expression_onward _)
    intro left afterLeft
    split
    · exact expected_onward _ afterLeft
    · apply onward_advance
      apply Parsed.Onward.bind (expression_onward _)
      intro right afterRight
      apply Parsed.Onward.bind (expect_onward _ _)
      intro bracket afterBracket
      exact (ih.statementsUntil _ _).map _
  · exact .inl (Cursor.leadsTo_refl _)
  · exact .inl (keyword _)
  · exact .inl (Cursor.leadsTo_refl _)
  · left
    apply Parsed.Onward.bind (expression_onward _)
    intro x afterX
    exact (expression_onward _).map _
  · exact .inl (keyword _)
  · exact .inl (Cursor.leadsTo_refl _)
  · exact .inl (Cursor.leadsTo_refl _)
  · exact .inl (keyword _)
  · exact .inl (keyword _)
  · exact .inl (keyword _)
  · exact .inl (keyword _)
  · exact .inl (((expr_onward _).arguments _ _).map _)
  · right
    refine ⟨?_, rfl⟩
    unfold startsStatement Cursor.kind
    split <;> first | rfl | contradiction

theorem stmt_onward (n : Nat) : StmtOnward n := by
  induction n with
  | zero => constructor <;> intros <;> exact unexpected_onward _
  | succ n ih =>
    constructor
    · intro c
      rcases statement_onward_succ ih c with onward | ⟨-, rejected⟩
      · exact onward_advance onward
      · rw [rejected]
        exact unexpected_onward c
    · intro close c
      rw [statementsUntil]
      split
      · exact c.leadsTo_advance
      · split
        · exact expected_onward _ c
        · apply Parsed.Onward.bind (ih.statement c)
          intro s next
          exact (ih.statementsUntil close next).map _

end Parse
end TurtleLogo
