import TurtleLogo.Proofs.Parse.Reading
import TurtleLogo.Proofs.Program.Decisions

/-!
Parsing keeps every token. The productions of the grammar move the cursor past exactly the
lexemes of the node that they return, so the lexemes of an accepted program are the tokens of
its source text.
-/
namespace TurtleLogo
open Text Cursor

namespace Parse

theorem expect_reads {k : TokenKind} {c next : Cursor} {t : Token}
    (h : expect k c = .ok t next) : t = c.peek ∧ t.kind = k ∧ next = c.advance := by
  unfold expect at h
  split at h
  · rename_i same
    simp only [Parsed.ok.injEq] at h
    obtain ⟨rfl, rfl⟩ := h
    exact ⟨rfl, by simpa [Cursor.kind] using same, rfl⟩
  · simp [expected] at h

/-- What the productions of expressions read with some fuel. Behind a left operand the lexemes
    of the result go on where those of the operand end. -/
structure ExprReads (n : Nat) : Prop where
  expr {level : Level} {c next : Cursor} {e : Expr} (h : expr n level c = .ok e next) :
    c.Reads e.lexemes next
  operators {level : Level} {left e : Expr} {c next : Cursor}
    (h : operators n level left c = .ok e next) :
    ∃ xs, e.lexemes = left.lexemes ++ xs ∧ c.Reads xs next
  operand {c next : Cursor} {e : Expr} (h : operand n c = .ok e next) : c.Reads e.lexemes next
  arguments {name : Name} {c next : Cursor} {es : List Expr}
    (h : arguments n name c = .ok es next) : c.Reads (lexemesOfArgs es) next
  exactArguments {name : Name} {arity : Nat} {c next : Cursor} {es : List Expr}
    (h : exactArguments n name arity c = .ok es next) : c.Reads (lexemesOfArgs es) next
  openArguments {c next : Cursor} {es : List Expr}
    (h : openArguments n c = .ok es next) : c.Reads (lexemesOfArgs es) next

section
variable {n : Nat} (ih : ExprReads n)
include ih

theorem expr_reads_succ {level : Level} {c next : Cursor} {e : Expr}
    (h : expr (n + 1) level c = .ok e next) : c.Reads e.lexemes next := by
  rw [expr] at h
  obtain ⟨left, mid, first, rest⟩ := Parsed.bind_eq_ok h
  obtain ⟨xs, lexemes, reads⟩ := ih.operators rest
  rw [lexemes]
  exact (ih.operand first).append reads

theorem operators_reads_succ {level : Level} {left e : Expr} {c next : Cursor}
    (h : operators (n + 1) level left c = .ok e next) :
    ∃ xs, e.lexemes = left.lexemes ++ xs ∧ c.Reads xs next := by
  rw [operators] at h
  split at h
  · simp only [Parsed.ok.injEq] at h
    obtain ⟨rfl, rfl⟩ := h
    exact ⟨[], by simp, .nil c⟩
  · rename_i op found
    have same : c.peek.kind = op.kind := (arithOp_kind_of_ofKind found).symm
    split at h
    · obtain ⟨right, mid, first, rest⟩ := Parsed.bind_eq_ok h
      obtain ⟨xs, lexemes, reads⟩ := ih.operators rest
      refine ⟨.inner op.kind :: (right.lexemes ++ xs), ?_, ?_⟩
      · rw [lexemes, Expr.lexemes]
        simp
      · exact .one (by cases op <;> simp [Lexeme.inner, ArithOp.kind]) (Lexeme.inner_fits same)
          ((ih.expr first).append reads)
    · simp only [Parsed.ok.injEq] at h
      obtain ⟨rfl, rfl⟩ := h
      exact ⟨[], by simp, .nil c⟩

theorem operand_reads_succ {c next : Cursor} {e : Expr}
    (h : operand (n + 1) c = .ok e next) : c.Reads e.lexemes next := by
  rw [operand] at h
  split at h
  · -- a number
    rename_i same
    split at h
    · rename_i value read
      simp only [Parsed.ok.injEq] at h
      obtain ⟨rfl, rfl⟩ := h
      exact .one (by simp) ⟨⟨same, read⟩, by simp⟩ (.nil _)
    · simp at h
  · rename_i same
    simp only [Parsed.ok.injEq] at h
    obtain ⟨rfl, rfl⟩ := h
    exact .one (by simp) ⟨⟨same, rfl⟩, by simp⟩ (.nil _)
  · rename_i same
    simp only [Parsed.ok.injEq] at h
    obtain ⟨rfl, rfl⟩ := h
    exact .one (by simp) ⟨⟨same, rfl⟩, by simp⟩ (.nil _)
  · -- a sign
    rename_i same
    obtain ⟨inner, read, rfl⟩ := Parsed.map_eq_ok h
    exact .one (by simp [Lexeme.opening]) (Lexeme.opening_fits same) (ih.expr read)
  · -- brackets
    rename_i same
    obtain ⟨inner, mid, read, rest⟩ := Parsed.bind_eq_ok h
    obtain ⟨t, closed, rfl⟩ := Parsed.map_eq_ok rest
    obtain ⟨rfl, close, rfl⟩ := expect_reads closed
    exact .one (by simp [Lexeme.opening]) (Lexeme.opening_fits same)
      ((ih.expr read).append
        (.one (by simp [Lexeme.inner]) (Lexeme.inner_fits close) (.nil _)))
  · rename_i same
    obtain ⟨limit, read, rfl⟩ := Parsed.map_eq_ok h
    exact .one (by simp [Lexeme.opening]) (Lexeme.opening_fits same) (ih.expr read)
  · -- a call
    rename_i same
    obtain ⟨args, read, rfl⟩ := Parsed.map_eq_ok h
    exact .one (by simp) ⟨⟨same, rfl⟩, by simp⟩ (ih.arguments read)
  · simp [unexpected] at h

theorem arguments_reads_succ {name : Name} {c next : Cursor} {es : List Expr}
    (h : arguments (n + 1) name c = .ok es next) : c.Reads (lexemesOfArgs es) next := by
  rw [arguments] at h
  split at h
  · exact ih.exactArguments h
  · exact ih.openArguments h

theorem exactArguments_reads_succ {name : Name} {arity : Nat} {c next : Cursor} {es : List Expr}
    (h : exactArguments (n + 1) name arity c = .ok es next) :
    c.Reads (lexemesOfArgs es) next := by
  cases arity with
  | zero =>
    simp only [exactArguments, Parsed.ok.injEq] at h
    obtain ⟨rfl, rfl⟩ := h
    exact .nil c
  | succ arity =>
    rw [exactArguments] at h
    split at h
    · obtain ⟨arg, mid, first, rest⟩ := Parsed.bind_eq_ok h
      obtain ⟨args, others, rfl⟩ := Parsed.map_eq_ok rest
      exact (ih.expr first).append (ih.exactArguments others)
    · simp [expected] at h

theorem openArguments_reads_succ {c next : Cursor} {es : List Expr}
    (h : openArguments (n + 1) c = .ok es next) : c.Reads (lexemesOfArgs es) next := by
  rw [openArguments] at h
  split at h
  · obtain ⟨arg, mid, first, rest⟩ := Parsed.bind_eq_ok h
    obtain ⟨args, others, rfl⟩ := Parsed.map_eq_ok rest
    exact (ih.expr first).append (ih.openArguments others)
  · simp only [Parsed.ok.injEq] at h
    obtain ⟨rfl, rfl⟩ := h
    exact .nil c

end

theorem expr_reads (n : Nat) : ExprReads n := by
  induction n with
  | zero =>
    constructor <;> intros <;>
      simp_all [expr, operators, operand, arguments, exactArguments, openArguments, unexpected]
  | succ n ih =>
    exact ⟨expr_reads_succ ih, operators_reads_succ ih, operand_reads_succ ih,
      arguments_reads_succ ih, exactArguments_reads_succ ih, openArguments_reads_succ ih⟩

theorem expression_reads {c next : Cursor} {e : Expr} (h : expression c = .ok e next) :
    c.Reads e.lexemes next :=
  (expr_reads c.fuel).expr h

theorem parameters_reads {n : Nat} {c next : Cursor} {params : List Name}
    (h : parameters n c = .ok params next) :
    c.Reads (params.map (⟨.paramName, .sigiled ·, none⟩)) next := by
  induction n generalizing c params with
  | zero =>
    simp only [parameters, Parsed.ok.injEq] at h
    obtain ⟨rfl, rfl⟩ := h
    exact .nil c
  | succ n ih =>
    rw [parameters] at h
    split at h
    · rename_i same
      obtain ⟨others, read, rfl⟩ := Parsed.map_eq_ok h
      exact .one (by simp) ⟨⟨by simpa [Cursor.kind] using same, rfl⟩, by simp⟩ (ih read)
    · simp only [Parsed.ok.injEq] at h
      obtain ⟨rfl, rfl⟩ := h
      exact .nil c

structure StmtReads (n : Nat) : Prop where
  statement {c next : Cursor} {s : Stmt} (h : statement n c = .ok s next) :
    c.Reads s.lexemes next
  statementsUntil {close : TokenKind} {c next : Cursor} {ss : List Stmt} (proper : close ≠ .eof)
    (h : statementsUntil n close c = .ok ss next) :
    c.Reads (lexemesOf ss ++ [.inner close]) next

theorem keyword_expression_reads {k : TokenKind} {c next : Cursor} {e : Expr}
    (same : c.peek.kind = k) (proper : k ≠ .eof) (h : expression c.advance = .ok e next) :
    c.Reads (.opening k c.peek.pos :: e.lexemes) next :=
  .one proper (Lexeme.opening_fits same) (expression_reads h)

theorem keyword_reads {k : TokenKind} {c : Cursor} (same : c.peek.kind = k) (proper : k ≠ .eof) :
    c.Reads [.opening k c.peek.pos] c.advance :=
  .one proper (Lexeme.opening_fits same) (.nil _)

section
variable {n : Nat} (ih : StmtReads n)
include ih

theorem statementsUntil_reads_succ {close : TokenKind} {c next : Cursor} {ss : List Stmt}
    (proper : close ≠ .eof) (h : statementsUntil (n + 1) close c = .ok ss next) :
    c.Reads (lexemesOf ss ++ [.inner close]) next := by
  rw [statementsUntil] at h
  split at h
  · rename_i same
    simp only [Parsed.ok.injEq] at h
    obtain ⟨rfl, rfl⟩ := h
    exact .one proper (Lexeme.inner_fits (by simpa [Cursor.kind] using same)) (.nil _)
  · split at h
    · simp [expected] at h
    · obtain ⟨s, mid, first, rest⟩ := Parsed.bind_eq_ok h
      obtain ⟨others, read, rfl⟩ := Parsed.map_eq_ok rest
      rw [lexemesOf, List.append_assoc]
      exact (ih.statement first).append (ih.statementsUntil proper read)

theorem block_reads {c next : Cursor} {body : List Stmt} (same : c.peek.kind = .leftBracket)
    (h : statementsUntil n .rightBracket c.advance = .ok body next) :
    c.Reads (.inner .leftBracket :: (lexemesOf body ++ [.inner .rightBracket])) next :=
  .one (by simp [Lexeme.inner]) (Lexeme.inner_fits same) (ih.statementsUntil (by simp) h)

theorem statement_reads_succ {c next : Cursor} {s : Stmt}
    (h : statement (n + 1) c = .ok s next) : c.Reads s.lexemes next := by
  rw [statement] at h
  split at h <;> rename_i same
  · -- a definition: its header is noted before its body is read
    obtain ⟨name, afterName, named, rest⟩ := Parsed.bind_eq_ok h
    obtain ⟨rfl, isName, rfl⟩ := expect_reads named
    obtain ⟨params, afterParams, read, rest⟩ := Parsed.bind_eq_ok rest
    obtain ⟨body, block, rfl⟩ := Parsed.map_eq_ok rest
    exact .one (by simp [Lexeme.opening]) (Lexeme.opening_fits same)
      (.one (by simp) ⟨⟨isName, rfl⟩, by simp⟩
        ((parameters_reads read).append
          (.header _ _ (ih.statementsUntil (by simp) block))))
  · -- an assignment
    obtain ⟨name, afterName, named, rest⟩ := Parsed.bind_eq_ok h
    obtain ⟨rfl, isName, rfl⟩ := expect_reads named
    obtain ⟨value, read, rfl⟩ := Parsed.map_eq_ok rest
    exact .one (by simp [Lexeme.opening]) (Lexeme.opening_fits same)
      (.one (by simp) ⟨⟨isName, rfl⟩, by simp⟩ (expression_reads read))
  · -- a loop over a block or a procedure
    obtain ⟨count, afterCount, counted, rest⟩ := Parsed.bind_eq_ok h
    have start := keyword_expression_reads same (by decide) counted
    split at rest <;> rename_i follows
    · obtain ⟨body, block, rfl⟩ := Parsed.map_eq_ok rest
      exact start.append (block_reads ih follows block)
    · simp only [Parsed.ok.injEq] at rest
      obtain ⟨rfl, rfl⟩ := rest
      exact start.append (.one (by simp) ⟨⟨follows, rfl⟩, by simp⟩ (.nil _))
    · simp [expected] at rest
  · -- a test
    obtain ⟨left, afterLeft, readLeft, rest⟩ := Parsed.bind_eq_ok h
    have start := keyword_expression_reads same (by decide) readLeft
    split at rest
    · simp [expected] at rest
    · rename_i op found
      obtain ⟨right, afterRight, readRight, rest⟩ := Parsed.bind_eq_ok rest
      obtain ⟨t, afterBracket, bracket, rest⟩ := Parsed.bind_eq_ok rest
      obtain ⟨rfl, isBracket, rfl⟩ := expect_reads bracket
      obtain ⟨body, block, rfl⟩ := Parsed.map_eq_ok rest
      have sameOp : afterLeft.peek.kind = op.kind := (comparison_kind_of_ofKind found).symm
      exact start.append
        (.one (by cases op <;> simp [Lexeme.inner, Comparison.kind]) (Lexeme.inner_fits sameOp)
          ((expression_reads readRight).append (block_reads ih isBracket block)))
  · simp only [Parsed.ok.injEq] at h
    obtain ⟨rfl, rfl⟩ := h
    exact keyword_reads same (by decide)
  · obtain ⟨value, read, rfl⟩ := Parsed.map_eq_ok h
    exact keyword_expression_reads same (by decide) read
  · simp only [Parsed.ok.injEq] at h
    obtain ⟨rfl, rfl⟩ := h
    exact keyword_reads same (by decide)
  · obtain ⟨x, mid, readX, rest⟩ := Parsed.bind_eq_ok h
    obtain ⟨y, readY, rfl⟩ := Parsed.map_eq_ok rest
    exact (keyword_expression_reads same (by decide) readX).append (expression_reads readY)
  · obtain ⟨angle, read, rfl⟩ := Parsed.map_eq_ok h
    exact keyword_expression_reads same (by decide) read
  · simp only [Parsed.ok.injEq] at h
    obtain ⟨rfl, rfl⟩ := h
    exact keyword_reads same (by decide)
  · simp only [Parsed.ok.injEq] at h
    obtain ⟨rfl, rfl⟩ := h
    exact keyword_reads same (by decide)
  · obtain ⟨distance, read, rfl⟩ := Parsed.map_eq_ok h
    exact keyword_expression_reads same (by decide) read
  · obtain ⟨distance, read, rfl⟩ := Parsed.map_eq_ok h
    exact keyword_expression_reads same (by decide) read
  · obtain ⟨angle, read, rfl⟩ := Parsed.map_eq_ok h
    exact keyword_expression_reads same (by decide) read
  · obtain ⟨angle, read, rfl⟩ := Parsed.map_eq_ok h
    exact keyword_expression_reads same (by decide) read
  · -- a call
    obtain ⟨args, read, rfl⟩ := Parsed.map_eq_ok h
    exact .one (by simp) ⟨⟨same, rfl⟩, by simp⟩ ((expr_reads _).arguments read)
  · simp [unexpected] at h

end

theorem stmt_reads (n : Nat) : StmtReads n := by
  induction n with
  | zero => constructor <;> intros <;> simp_all [statement, statementsUntil, unexpected]
  | succ n ih => exact ⟨statement_reads_succ ih, statementsUntil_reads_succ ih⟩

theorem statement_shortens {n : Nat} {c next : Cursor} {s : Stmt}
    (h : statement n c = .ok s next) : next.rest.length < c.rest.length := by
  obtain ⟨used, rest, fits⟩ := ((stmt_reads n).statement h).tokens
  obtain ⟨x, xs, lexemes, -⟩ := stmt_starts_at_pos s
  have count := fits.length_eq
  rw [lexemes, List.length_cons] at count
  rw [rest, List.length_append]
  omega

/-- Where no statement fails, the tokens are used up. -/
theorem topLevel_reads {n : Nat} {c : Cursor} {ss : List Stmt} (fuel : c.rest.length < n)
    (h : topLevel n c = (ss, [])) : List.Forall₂ Lexeme.Fits (lexemesOf ss) c.rest := by
  induction n generalizing c ss with
  | zero => omega
  | succ n ih =>
    rw [topLevel] at h
    split at h
    · rename_i done
      obtain ⟨rfl, -⟩ := Prod.mk.inj h
      rw [List.isEmpty_iff.mp done]
      exact .nil
    · split at h
      · rename_i s next read
        obtain ⟨rfl, clean⟩ := Prod.mk.inj h
        have shorter := statement_shortens read
        have others := ih (c := next) (by omega) (Prod.ext rfl clean)
        obtain ⟨used, rest, fits⟩ := ((stmt_reads _).statement read).tokens
        rw [rest, lexemesOf]
        exact List.rel_append fits others
      · simp at h

end Parse

/-- The lexemes of an accepted program are the tokens of its source text, in order and without
    gaps, and every node stands where its first token does. -/
theorem parsed_lexemes_are_tokens {source : Bytes} {p : Program} (accepted : parse source = .ok p) :
    List.Forall₂ Lexeme.Fits (lexemesOf p.statements) (tokenize source).tokens ∧
      (∀ s : Stmt, ∃ x rest, s.lexemes = x :: rest ∧ x.pos = some s.pos) ∧
      ∀ e : Expr, ∃ x rest, e.lexemes = x :: rest ∧ x.pos = some e.pos := by
  refine ⟨?_, stmt_starts_at_pos, expr_starts_at_pos⟩
  simp only [parse] at accepted
  split at accepted
  · split at accepted
    · rename_i clean
      obtain rfl := Except.ok.inj accepted
      exact Parse.topLevel_reads (Nat.lt_succ_self _) (Prod.ext rfl (List.isEmpty_iff.mp clean))
    · simp at accepted
  · simp at accepted

theorem parsed_lexemes_are_tokens_of_definition :
    ∃ p, parse (utf8 "to f :a fd (:a) end repeat 2 f") = .ok p ∧ p.statements.length = 2 ∧
      List.Forall₂ Lexeme.Fits (lexemesOf p.statements)
        (tokenize (utf8 "to f :a fd (:a) end repeat 2 f")).tokens := by
  obtain ⟨p, accepted, two⟩ : ∃ p, parse (utf8 "to f :a fd (:a) end repeat 2 f") = .ok p ∧
      p.statements.length = 2 := by decide +kernel
  exact ⟨p, accepted, two, (parsed_lexemes_are_tokens accepted).1⟩

end TurtleLogo
