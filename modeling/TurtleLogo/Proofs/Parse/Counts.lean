import TurtleLogo.Proofs.Parse.Bare
import TurtleLogo.Proofs.Parse.Extend
import TurtleLogo.Proofs.Program.Calls

/-!
How many arguments calls have. The parser knows the headers that it has read, and where it reads a
call it looks up the latest one of the name. So a call that follows a header has as many arguments
as the last such header has parameters, and any other call has arguments for as long as tokens
follow that open one.
-/
namespace TurtleLogo
open Text

def argumentOpeners : List TokenKind :=
  [.number, .paramName, .varName, .minus, .leftParen, .random]

theorem Parse.startsArgument_iff {kind : TokenKind} :
    startsArgument kind = true ↔ kind ∈ argumentOpeners := by
  cases kind <;> decide

def Expr.OpensArgument (e : Expr) : Prop :=
  ∃ x xs, e.lexemes = x :: xs ∧ x.kind ∈ argumentOpeners

/-- What the headers known ask of a list of arguments, given the tokens behind it. -/
def ArgumentsFit (known : Arities) (name : Name) (args : List Expr) (behind : List Token) : Prop :=
  match known.lookup name with
  | some arity => args.length = arity
  | none => (∀ e ∈ args, e.OpensArgument) ∧ headKind behind ∉ argumentOpeners

def Call.Fits (tokens : List Token) (known : Arities) (c : Call) : Prop :=
  ∃ own behind, own ++ behind <:+ tokens ∧ List.Forall₂ Lexeme.Fits c.lexemes own ∧
    ArgumentsFit known c.name c.args behind

def CallsFit (tokens : List Token) (known : Arities) : List Landmark → Prop
  | [] => True
  | .header d :: rest => CallsFit tokens ((d.name, d.params.length) :: known) rest
  | .call c :: rest => c.Fits tokens known ∧ CallsFit tokens known rest

section
variable {tokens : List Token} {known : Arities}

theorem callsFit_append {front back : List Landmark} :
    CallsFit tokens known (front ++ back) ↔
      CallsFit tokens known front ∧ CallsFit tokens (learned known front) back := by
  induction front generalizing known with
  | nil => exact (true_and _).symm ▸ Iff.rfl
  | cons mark rest ih =>
    cases mark with
    | header d =>
      rw [List.cons_append, CallsFit, CallsFit, ih, learned_header]
    | call c =>
      have same : learned known (.call c :: rest) = learned known rest := rfl
      rw [List.cons_append, CallsFit, CallsFit, ih, same, and_assoc]

theorem callsFit_of_calls {calls : List Call} (fit : ∀ c ∈ calls, c.Fits tokens known) :
    CallsFit tokens known (calls.map .call) := by
  induction calls with
  | nil => trivial
  | cons c rest ih =>
    obtain ⟨first, others⟩ := List.forall_mem_cons.mp fit
    exact ⟨first, ih others⟩

theorem CallsFit.call {front back : List Landmark} {c : Call}
    (fit : CallsFit tokens known (front ++ .call c :: back)) :
    c.Fits tokens (learned known front) :=
  (callsFit_append.mp fit).2.1

end

/-- The cursor stands somewhere in front of the tokens, and knows some headers. -/
structure Cursor.Within (tokens : List Token) (known : Arities) (c : Cursor) : Prop where
  rest : c.rest <:+ tokens
  arities : c.arities = known

namespace Cursor.Within
variable {tokens : List Token} {known : Arities} {c next : Cursor}

theorem reads {xs : List Lexeme} {headers : Arities} (within : c.Within tokens known)
    (reads : c.Reads xs next) (arities : next.arities = headers) : next.Within tokens headers := by
  obtain ⟨used, rest, -⟩ := reads.tokens
  refine ⟨?_, arities⟩
  exact (List.suffix_append used next.rest).trans (rest ▸ within.rest)

theorem advance (within : c.Within tokens known) : c.advance.Within tokens known := by
  refine ⟨?_, c.advance_arities.trans within.arities⟩
  refine List.IsSuffix.trans ?_ within.rest
  unfold Cursor.advance
  split
  · exact List.suffix_refl _
  · rename_i t rest ahead
    rw [ahead]
    exact List.suffix_cons t rest

theorem declare (within : c.Within tokens known) (name : Name) (arity : Nat) :
    (c.declare name arity).Within tokens ((name, arity) :: known) :=
  ⟨within.rest, congrArg _ within.arities⟩

end Cursor.Within

namespace Parse

theorem expr_arities (n : Nat) : ExprExtends [] [] n := expr_extends [] rfl n

theorem stmt_arities (n : Nat) : StmtExtends [] [] n := stmt_extends [] rfl n

theorem parameters_arities {n : Nat} {c next : Cursor} {params : List Name}
    (enough : c.rest.length ≤ n) (read : parameters n c = .ok params next) :
    next.arities = c.arities := by
  have ends : endsExpression (headKind []) = true := rfl
  exact (parameters_carries ends [] enough read).1

theorem opensArgument_of_reads {c next : Cursor} {e : Expr} (reads : c.Reads e.lexemes next)
    (starts : startsArgument c.kind = true) : e.OpensArgument := by
  obtain ⟨x, xs, lexemes, -⟩ := expr_starts_at_pos e
  obtain ⟨used, rest, fits⟩ := reads.tokens
  rw [lexemes] at fits
  cases fits with
  | @cons _ t _ others first _ =>
    have kind : c.kind = x.kind := by
      rw [Cursor.kind, Cursor.peek_of_rest rest, first.1.1]
    exact ⟨x, xs, lexemes, startsArgument_iff.mp (kind ▸ starts)⟩

theorem exactArguments_length {n : Nat} {name : Name} {arity : Nat} {c next : Cursor}
    {es : List Expr} (read : exactArguments n name arity c = .ok es next) : es.length = arity := by
  induction n generalizing arity c es with
  | zero => simp [exactArguments, unexpected] at read
  | succ n ih =>
    cases arity with
    | zero =>
      obtain ⟨rfl, -⟩ := Parsed.ok.inj read
      rfl
    | succ arity =>
      rw [exactArguments] at read
      split at read
      · obtain ⟨arg, mid, -, rest⟩ := Parsed.bind_eq_ok read
        obtain ⟨others, found, rfl⟩ := Parsed.map_eq_ok rest
        rw [List.length_cons, ih found]
      · simp [expected] at read

theorem openArguments_maximal {n : Nat} {c next : Cursor} {es : List Expr}
    (read : openArguments n c = .ok es next) :
    (∀ e ∈ es, e.OpensArgument) ∧ next.kind ∉ argumentOpeners := by
  induction n generalizing c es with
  | zero => simp [openArguments, unexpected] at read
  | succ n ih =>
    rw [openArguments] at read
    split at read
    · rename_i starts
      obtain ⟨arg, mid, first, rest⟩ := Parsed.bind_eq_ok read
      obtain ⟨others, found, rfl⟩ := Parsed.map_eq_ok rest
      obtain ⟨opens, maximal⟩ := ih found
      have opening := opensArgument_of_reads ((expr_reads n).expr first) starts
      exact ⟨List.forall_mem_cons.mpr ⟨opening, opens⟩, maximal⟩
    · rename_i stops
      obtain ⟨rfl, rfl⟩ := Parsed.ok.inj read
      exact ⟨List.forall_mem_nil _, mt startsArgument_iff.mpr stops⟩

theorem arguments_fit {n : Nat} {name : Name} {c next : Cursor} {es : List Expr}
    (read : arguments n name c = .ok es next) :
    ArgumentsFit c.arities name es next.rest := by
  cases n with
  | zero => simp [arguments, unexpected] at read
  | succ n =>
    rw [arguments, Cursor.arity?] at read
    unfold ArgumentsFit
    cases header : c.arities.lookup name with
    | some arity =>
      simp only [header] at read ⊢
      exact exactArguments_length read
    | none =>
      simp only [header] at read ⊢
      rw [← Cursor.kind_eq_headKind]
      exact openArguments_maximal read

section
variable {tokens : List Token} {known : Arities} {c next : Cursor}

theorem call_fits {n : Nat} {args : List Expr} (within : c.Within tokens known)
    (named : c.peek.kind = .identifier)
    (read : arguments n c.peek.literal c.advance = .ok args next) :
    Call.Fits tokens known ⟨c.peek.pos, c.peek.literal, args⟩ := by
  have whole : c.Reads (Call.lexemes ⟨c.peek.pos, c.peek.literal, args⟩) next :=
    .one (by simp) ⟨⟨named, rfl⟩, by simp⟩ ((expr_reads n).arguments read)
  obtain ⟨used, rest, fits⟩ := whole.tokens
  refine ⟨used, next.rest, rest ▸ within.rest, fits, ?_⟩
  have asked := arguments_fit read
  rwa [within.advance.arities] at asked

variable (tokens known) in
structure ExprFits (n : Nat) : Prop where
  expr {level : Level} {c next : Cursor} {e : Expr} (within : c.Within tokens known)
    (read : expr n level c = .ok e next) : ∀ call ∈ e.calls, call.Fits tokens known
  operators {level : Level} {left e : Expr} {c next : Cursor} (within : c.Within tokens known)
    (before : ∀ call ∈ left.calls, call.Fits tokens known)
    (read : operators n level left c = .ok e next) : ∀ call ∈ e.calls, call.Fits tokens known
  operand {c next : Cursor} {e : Expr} (within : c.Within tokens known)
    (read : operand n c = .ok e next) : ∀ call ∈ e.calls, call.Fits tokens known
  arguments {name : Name} {c next : Cursor} {es : List Expr} (within : c.Within tokens known)
    (read : arguments n name c = .ok es next) : ∀ call ∈ callsOfArgs es, call.Fits tokens known
  exactArguments {name : Name} {arity : Nat} {c next : Cursor} {es : List Expr}
    (within : c.Within tokens known) (read : exactArguments n name arity c = .ok es next) :
    ∀ call ∈ callsOfArgs es, call.Fits tokens known
  openArguments {c next : Cursor} {es : List Expr} (within : c.Within tokens known)
    (read : openArguments n c = .ok es next) : ∀ call ∈ callsOfArgs es, call.Fits tokens known

theorem expr_within {n : Nat} {level : Level} {e : Expr} (within : c.Within tokens known)
    (read : expr n level c = .ok e next) : next.Within tokens known :=
  within.reads ((expr_reads n).expr read)
    (((expr_arities n).expr read).1.trans within.arities)

variable {n : Nat} (ih : ExprFits tokens known n)
include ih

theorem operators_fit_succ {level : Level} {left e : Expr} (within : c.Within tokens known)
    (before : ∀ call ∈ left.calls, call.Fits tokens known)
    (read : operators (n + 1) level left c = .ok e next) :
    ∀ call ∈ e.calls, call.Fits tokens known := by
  rw [operators] at read
  split at read
  · obtain ⟨rfl, rfl⟩ := Parsed.ok.inj read
    exact before
  · rename_i op _
    split at read
    · obtain ⟨right, mid, first, rest⟩ := Parsed.bind_eq_ok read
      have both : ∀ call ∈ (Expr.binary op left right).calls, call.Fits tokens known :=
        List.forall_mem_append.mpr ⟨before, ih.expr within.advance first⟩
      exact ih.operators (expr_within within.advance first) both rest
    · obtain ⟨rfl, rfl⟩ := Parsed.ok.inj read
      exact before

theorem operand_fits_succ {e : Expr} (within : c.Within tokens known)
    (read : operand (n + 1) c = .ok e next) : ∀ call ∈ e.calls, call.Fits tokens known := by
  rw [operand] at read
  split at read
  · -- a number
    split at read
    · obtain ⟨rfl, rfl⟩ := Parsed.ok.inj read
      exact List.forall_mem_nil _
    · simp at read
  · obtain ⟨rfl, rfl⟩ := Parsed.ok.inj read
    exact List.forall_mem_nil _
  · obtain ⟨rfl, rfl⟩ := Parsed.ok.inj read
    exact List.forall_mem_nil _
  · obtain ⟨inner, found, rfl⟩ := Parsed.map_eq_ok read
    have inside := ih.expr within.advance found
    exact inside
  · obtain ⟨inner, mid, found, rest⟩ := Parsed.bind_eq_ok read
    obtain ⟨t, closed, rfl⟩ := Parsed.map_eq_ok rest
    have inside := ih.expr within.advance found
    exact inside
  · obtain ⟨limit, found, rfl⟩ := Parsed.map_eq_ok read
    have inside := ih.expr within.advance found
    exact inside
  · -- a call
    rename_i named
    obtain ⟨args, found, rfl⟩ := Parsed.map_eq_ok read
    exact List.forall_mem_cons.mpr
      ⟨call_fits within named found, ih.arguments within.advance found⟩
  · simp [unexpected] at read

theorem exactArguments_fit_succ {name : Name} {arity : Nat} {es : List Expr}
    (within : c.Within tokens known) (read : exactArguments (n + 1) name arity c = .ok es next) :
    ∀ call ∈ callsOfArgs es, call.Fits tokens known := by
  cases arity with
  | zero =>
    obtain ⟨rfl, rfl⟩ := Parsed.ok.inj read
    exact List.forall_mem_nil _
  | succ arity =>
    rw [exactArguments] at read
    split at read
    · obtain ⟨arg, mid, first, rest⟩ := Parsed.bind_eq_ok read
      obtain ⟨args, others, rfl⟩ := Parsed.map_eq_ok rest
      exact List.forall_mem_append.mpr
        ⟨ih.expr within first, ih.exactArguments (expr_within within first) others⟩
    · simp [expected] at read

theorem openArguments_fit_succ {es : List Expr} (within : c.Within tokens known)
    (read : openArguments (n + 1) c = .ok es next) :
    ∀ call ∈ callsOfArgs es, call.Fits tokens known := by
  rw [openArguments] at read
  split at read
  · obtain ⟨arg, mid, first, rest⟩ := Parsed.bind_eq_ok read
    obtain ⟨args, others, rfl⟩ := Parsed.map_eq_ok rest
    exact List.forall_mem_append.mpr
      ⟨ih.expr within first, ih.openArguments (expr_within within first) others⟩
  · obtain ⟨rfl, rfl⟩ := Parsed.ok.inj read
    exact List.forall_mem_nil _

end

theorem expr_fits (tokens : List Token) (known : Arities) (n : Nat) :
    ExprFits tokens known n := by
  induction n with
  | zero =>
    constructor <;> intros <;>
      simp_all [expr, operators, operand, arguments, exactArguments, openArguments, unexpected]
  | succ n ih =>
    constructor
    · intro level c next e within read
      rw [expr] at read
      obtain ⟨left, mid, first, rest⟩ := Parsed.bind_eq_ok read
      have beyond := within.reads ((expr_reads n).operand first)
        (((expr_arities n).operand first).1.trans within.arities)
      exact ih.operators beyond (ih.operand within first) rest
    · exact operators_fit_succ ih
    · exact operand_fits_succ ih
    · intro name c next es within read
      rw [arguments] at read
      split at read
      · exact ih.exactArguments within read
      · exact ih.openArguments within read
    · exact exactArguments_fit_succ ih
    · exact openArguments_fit_succ ih

section
variable {tokens : List Token} {known : Arities} {c next : Cursor}

theorem expression_fits {e : Expr} (within : c.Within tokens known)
    (read : expression c = .ok e next) : CallsFit tokens known e.landmarks :=
  callsFit_of_calls ((expr_fits tokens known c.fuel).expr within read)

theorem expression_within {e : Expr} (within : c.Within tokens known)
    (read : expression c = .ok e next) : next.Within tokens known :=
  expr_within within read

theorem callsFit_expr {e : Expr} {rest : List Landmark} (inside : CallsFit tokens known e.landmarks)
    (behind : CallsFit tokens known rest) : CallsFit tokens known (e.landmarks ++ rest) := by
  rw [callsFit_append, learned_expr]
  exact ⟨inside, behind⟩

variable (tokens) in
structure StmtFits (n : Nat) : Prop where
  statement {known : Arities} {c next : Cursor} {s : Stmt} (within : c.Within tokens known)
    (read : statement n c = .ok s next) : CallsFit tokens known s.landmarks
  statementsUntil {known : Arities} {close : TokenKind} {c next : Cursor} {ss : List Stmt}
    (within : c.Within tokens known) (read : statementsUntil n close c = .ok ss next) :
    CallsFit tokens known (landmarksOf ss)

theorem statement_within {n : Nat} {s : Stmt} (within : c.Within tokens known)
    (read : statement n c = .ok s next) : next.Within tokens (s.declared known) := by
  refine within.reads ((stmt_reads n).statement read) ?_
  rw [((stmt_arities n).statement read).1, within.arities]

variable {n : Nat} (ih : StmtFits tokens n)
include ih

theorem statementsUntil_fit_succ {close : TokenKind} {ss : List Stmt}
    (within : c.Within tokens known) (read : statementsUntil (n + 1) close c = .ok ss next) :
    CallsFit tokens known (landmarksOf ss) := by
  rw [statementsUntil] at read
  split at read
  · obtain ⟨rfl, -⟩ := Parsed.ok.inj read
    trivial
  · split at read
    · simp [expected] at read
    · obtain ⟨s, mid, first, rest⟩ := Parsed.bind_eq_ok read
      obtain ⟨others, found, rfl⟩ := Parsed.map_eq_ok rest
      rw [landmarksOf, callsFit_append, learned_stmt]
      exact ⟨ih.statement within first, ih.statementsUntil (statement_within within first) found⟩

theorem define_fits_succ {s : Stmt} (within : c.Within tokens known)
    (same : c.peek.kind = .define) (read : statement (n + 1) c = .ok s next) :
    CallsFit tokens known s.landmarks := by
  simp only [statement, same] at read
  obtain ⟨name, afterName, named, rest⟩ := Parsed.bind_eq_ok read
  obtain ⟨rfl, -, rfl⟩ := expect_reads named
  obtain ⟨params, afterParams, found, rest⟩ := Parsed.bind_eq_ok rest
  obtain ⟨body, block, rfl⟩ := Parsed.map_eq_ok rest
  have kept := parameters_arities (Nat.le_refl _) found
  have behind : afterParams.Within tokens known :=
    within.advance.advance.reads (parameters_reads found)
      (kept.trans within.advance.advance.arities)
  exact ih.statementsUntil (behind.declare _ _) block

theorem loop_fits_succ {s : Stmt} (within : c.Within tokens known)
    (same : c.peek.kind = .loop) (read : statement (n + 1) c = .ok s next) :
    CallsFit tokens known s.landmarks := by
  simp only [statement, same] at read
  obtain ⟨count, afterCount, counted, rest⟩ := Parsed.bind_eq_ok read
  have inside := expression_fits within.advance counted
  split at rest
  · obtain ⟨body, block, rfl⟩ := Parsed.map_eq_ok rest
    have start := (expression_within within.advance counted).advance
    exact callsFit_expr inside (ih.statementsUntil start block)
  · obtain ⟨rfl, -⟩ := Parsed.ok.inj rest
    exact inside
  · simp [expected] at rest

theorem test_fits_succ {s : Stmt} (within : c.Within tokens known)
    (same : c.peek.kind = .test) (read : statement (n + 1) c = .ok s next) :
    CallsFit tokens known s.landmarks := by
  simp only [statement, same] at read
  obtain ⟨left, afterLeft, readLeft, rest⟩ := Parsed.bind_eq_ok read
  split at rest
  · simp [expected] at rest
  · obtain ⟨right, afterRight, readRight, rest⟩ := Parsed.bind_eq_ok rest
    obtain ⟨t, afterBracket, bracket, rest⟩ := Parsed.bind_eq_ok rest
    obtain ⟨-, -, rfl⟩ := expect_reads bracket
    obtain ⟨body, block, rfl⟩ := Parsed.map_eq_ok rest
    have atRight := (expression_within within.advance readLeft).advance
    have atBody := (expression_within atRight readRight).advance
    exact callsFit_expr (expression_fits within.advance readLeft)
      (callsFit_expr (expression_fits atRight readRight) (ih.statementsUntil atBody block))

theorem statement_fits_succ {s : Stmt} (within : c.Within tokens known)
    (read : statement (n + 1) c = .ok s next) : CallsFit tokens known s.landmarks := by
  have whole := read
  -- a keyword with one expression behind it
  have keyword : ∀ {f : Expr → Stmt}, (∀ e, (f e).landmarks = e.landmarks) →
      (expression c.advance).map f = .ok s next → CallsFit tokens known s.landmarks := by
    intro f same read
    obtain ⟨e, found, rfl⟩ := Parsed.map_eq_ok read
    rw [same]
    exact expression_fits within.advance found
  rw [statement] at read
  split at read <;> rename_i same
  · exact define_fits_succ ih within same whole
  · obtain ⟨name, afterName, named, rest⟩ := Parsed.bind_eq_ok read
    obtain ⟨-, -, rfl⟩ := expect_reads named
    obtain ⟨value, found, rfl⟩ := Parsed.map_eq_ok rest
    exact expression_fits within.advance.advance found
  · exact loop_fits_succ ih within same whole
  · exact test_fits_succ ih within same whole
  · obtain ⟨rfl, -⟩ := Parsed.ok.inj read
    trivial
  · exact keyword (fun _ => rfl) read
  · obtain ⟨rfl, -⟩ := Parsed.ok.inj read
    trivial
  · obtain ⟨x, mid, readX, rest⟩ := Parsed.bind_eq_ok read
    obtain ⟨y, readY, rfl⟩ := Parsed.map_eq_ok rest
    have atY := expression_within within.advance readX
    exact callsFit_expr (expression_fits within.advance readX) (expression_fits atY readY)
  · exact keyword (fun _ => rfl) read
  · obtain ⟨rfl, -⟩ := Parsed.ok.inj read
    trivial
  · obtain ⟨rfl, -⟩ := Parsed.ok.inj read
    trivial
  · exact keyword (fun _ => rfl) read
  · exact keyword (fun _ => rfl) read
  · exact keyword (fun _ => rfl) read
  · exact keyword (fun _ => rfl) read
  · -- a call
    obtain ⟨args, found, rfl⟩ := Parsed.map_eq_ok read
    have inside := (expr_fits tokens known _).arguments within.advance found
    exact ⟨call_fits within same found, callsFit_of_calls inside⟩
  · simp [unexpected] at read

end

theorem stmt_fits (tokens : List Token) (n : Nat) : StmtFits tokens n := by
  induction n with
  | zero => constructor <;> intros <;> simp_all [statement, statementsUntil, unexpected]
  | succ n ih => exact ⟨statement_fits_succ ih, statementsUntil_fit_succ ih⟩

theorem topLevel_fits {tokens : List Token} {known : Arities} {n : Nat} {c : Cursor}
    {ss : List Stmt} (within : c.Within tokens known) (read : topLevel n c = (ss, [])) :
    CallsFit tokens known (landmarksOf ss) := by
  induction n generalizing c known ss with
  | zero =>
    obtain ⟨rfl, -⟩ := Prod.mk.inj read
    trivial
  | succ n ih =>
    rw [topLevel] at read
    split at read
    · obtain ⟨rfl, -⟩ := Prod.mk.inj read
      trivial
    · split at read
      · rename_i s next first
        obtain ⟨rfl, clean⟩ := Prod.mk.inj read
        rw [landmarksOf, callsFit_append, learned_stmt]
        exact ⟨(stmt_fits tokens _).statement within first,
          ih (statement_within within first) (Prod.ext rfl clean)⟩
      · simp at read

end Parse

/-- A call has as many arguments as the last header of its name in front of it has parameters. A
    call with no such header has all the arguments that open behind it. -/
theorem argument_counts_follow_headers {source : Bytes} {p : Program}
    (accepted : parse source = .ok p) : ∀ c, .call c ∈ landmarksOf p.statements →
      ∃ before own behind, (tokenize source).tokens = before ++ (own ++ behind) ∧
        List.Forall₂ Lexeme.Fits c.lexemes own ∧
        (∀ d, c.Follows d (definitionsOf p.statements) → c.args.length = d.params.length) ∧
        (c.Leads (definitionsOf p.statements) →
          (∀ e ∈ c.args, e.OpensArgument) ∧ headKind behind ∉ argumentOpeners) := by
  intro c member
  obtain ⟨-, read, -⟩ := parse_eq_ok_iff.mp accepted
  have start : (Cursor.ofLexed (tokenize source)).Within (tokenize source).tokens [] :=
    ⟨List.suffix_refl _, rfl⟩
  have fit := Parse.topLevel_fits start read
  have increasing : ((landmarksOf p.statements).map Landmark.pos).Pairwise
      (·.offset < ·.offset) :=
    (places_increasing accepted).sublist (landmarks_placed p.statements)
  rw [← headers_of_stmts]
  obtain ⟨front, back, whole⟩ := List.append_of_mem member
  rw [whole] at fit increasing ⊢
  obtain ⟨own, behind, ⟨before, tokens⟩, fits, asked⟩ := fit.call
  refine ⟨before, own, behind, tokens.symm, fits, ?_, ?_⟩
  · intro d follows
    rwa [ArgumentsFit, lookup_of_follows increasing follows] at asked
  · intro leads
    rwa [ArgumentsFit, lookup_of_leads increasing leads] at asked

def calledAround : Program :=
  ⟨[.call ⟨0, 1, 1⟩ [102] [.param ⟨2, 1, 3⟩ [97], .param ⟨5, 1, 6⟩ [98]],
    .define ⟨8, 1, 9⟩ [102] ⟨11, 1, 12⟩ [[99]]
      [.call ⟨16, 1, 17⟩ [102] [.param ⟨18, 1, 19⟩ [99]]],
    .call ⟨25, 1, 26⟩ [102] [.param ⟨27, 1, 28⟩ [97]]],
    utf8 "f :a :b to f :c f :c end f :a"⟩

theorem argument_counts_follow_headers_of_called_around :
    parse (utf8 "f :a :b to f :c f :c end f :a") = .ok calledAround ∧
      ∀ c, .call c ∈ landmarksOf calledAround.statements →
        ∃ before own behind, (tokenize (utf8 "f :a :b to f :c f :c end f :a")).tokens =
            before ++ (own ++ behind) ∧
          List.Forall₂ Lexeme.Fits c.lexemes own ∧
          (∀ d, c.Follows d (definitionsOf calledAround.statements) →
            c.args.length = d.params.length) ∧
          (c.Leads (definitionsOf calledAround.statements) →
            (∀ e ∈ c.args, e.OpensArgument) ∧ headKind behind ∉ argumentOpeners) := by
  have accepted : parse (utf8 "f :a :b to f :c f :c end f :a") = .ok calledAround := by
    decide +kernel
  exact ⟨accepted, argument_counts_follow_headers accepted⟩

end TurtleLogo
