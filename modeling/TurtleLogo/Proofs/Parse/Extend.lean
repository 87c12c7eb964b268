import TurtleLogo.Proofs.Parse.Complete
import TurtleLogo.Proofs.Parse.Faithful

/-!
Reading a text as part of a longer one. What was read in front of the end of a text is read in the
same way if more statements follow, and what was read with no headers known is read in the same way
behind other headers, provided that the calls have as many arguments as those ask for. A header in
the text itself takes precedence over one before it.
-/
namespace TurtleLogo
open Text

/-- Where the text has no header of its own, the call fits the header known before. -/
def Heeded (known own : Arities) (name : Name) (arguments : Nat) : Prop :=
  own.lookup name = none → CallFits known name arguments

mutual

def Expr.Heeds (known own : Arities) : Expr → Prop
  | .number .. | .param .. | .var .. => True
  | .negate _ e | .group _ e | .random _ e => e.Heeds known own
  | .binary _ left right => left.Heeds known own ∧ right.Heeds known own
  | .call _ name args => Heeded known own name args.length ∧ HeedsArgs known own args

def HeedsArgs (known own : Arities) : List Expr → Prop
  | [] => True
  | e :: rest => e.Heeds known own ∧ HeedsArgs known own rest

end

mutual

def Stmt.Heeds (known own : Arities) : Stmt → Prop
  | .define _ name _ params body => HeedsAll known ((name, params.length) :: own) body
  | .loop _ count body => count.Heeds known own ∧ HeedsAll known own body
  | .test _ left _ right body =>
    left.Heeds known own ∧ right.Heeds known own ∧ HeedsAll known own body
  | .call _ name args => Heeded known own name args.length ∧ HeedsArgs known own args
  | .make _ _ e | .loopCall _ e _ | .move _ _ e | .turn _ _ e | .setHeading _ e | .output _ e =>
    e.Heeds known own
  | .setXY _ x y => x.Heeds known own ∧ y.Heeds known own
  | .pen .. | .home _ | .stop _ => True

def HeedsAll (known own : Arities) : List Stmt → Prop
  | [] => True
  | s :: rest => s.Heeds known own ∧ HeedsAll known (s.declared own) rest

end

namespace Cursor

structure Extends (more : List Token) (known : Arities) (c longer : Cursor) : Prop where
  rest : longer.rest = c.rest ++ more
  arities : longer.arities = c.arities ++ known

namespace Extends
variable {more : List Token} {known : Arities} {c longer : Cursor}

theorem peek (ext : c.Extends more known longer) (ahead : c.rest ≠ []) : longer.peek = c.peek := by
  obtain ⟨t, ts, rest⟩ := List.exists_cons_of_ne_nil ahead
  have front := ext.rest
  rw [rest, List.cons_append] at front
  rw [peek_of_rest rest, peek_of_rest front]

theorem kind (ext : c.Extends more known longer) (ahead : c.rest ≠ []) : longer.kind = c.kind := by
  rw [Cursor.kind, ext.peek ahead, Cursor.kind]

theorem advance (ext : c.Extends more known longer) (ahead : c.rest ≠ []) :
    c.advance.Extends more known longer.advance := by
  obtain ⟨t, ts, rest⟩ := List.exists_cons_of_ne_nil ahead
  have front := ext.rest
  rw [rest, List.cons_append] at front
  refine ⟨by rw [advance_rest rest, advance_rest front], ?_⟩
  simpa [Cursor.advance, rest, front] using ext.arities

theorem declare (ext : c.Extends more known longer) (name : Name) (arity : Nat) :
    (c.declare name arity).Extends more known (longer.declare name arity) :=
  ⟨ext.rest, by rw [Cursor.declare, Cursor.declare, ext.arities, List.cons_append]⟩

theorem length (ext : c.Extends more known longer) : c.rest.length ≤ longer.rest.length := by
  rw [ext.rest, List.length_append]
  exact Nat.le_add_right _ _

theorem fuel (ext : c.Extends more known longer) : c.fuel ≤ longer.fuel := by
  have := ext.length
  rw [Cursor.fuel, Cursor.fuel]
  omega

theorem kind_at_end (ext : c.Extends more known longer) (ended : c.rest = []) :
    longer.kind = headKind more := by
  rw [kind_eq_headKind, ext.rest, ended, List.nil_append]

end Extends

theorem rest_ne_nil {c : Cursor} {k : TokenKind} (kind : c.peek.kind = k) (more : k ≠ .eof) :
    c.rest ≠ [] := by
  obtain ⟨ts, rest⟩ := rest_of_kind (c := c) (by rw [Cursor.kind, kind]; exact more)
  rw [rest]
  simp

end Cursor

theorem Cursor.advance_arities (c : Cursor) : c.advance.arities = c.arities := by
  unfold Cursor.advance
  split <;> rfl

namespace Parsed

/-- Reading a longer text gives the same and stops at the corresponding place. -/
def Continues {α : Type} (r : Parsed α) (more : List Token) (known : Arities) (value : α)
    (next : Cursor) : Prop :=
  ∃ further, r = .ok value further ∧ next.Extends more known further

variable {α β : Type} {more : List Token} {known : Arities} {r : Parsed α} {a : α} {mid : Cursor}

theorem Continues.bind {f : α → Cursor → Parsed β} {b : β} {next : Cursor}
    (first : r.Continues more known a mid)
    (second : ∀ further, mid.Extends more known further →
      (f a further).Continues more known b next) :
    (r.bind f).Continues more known b next := by
  obtain ⟨further, rfl, ext⟩ := first
  exact second further ext

theorem Continues.map (f : α → β) (first : r.Continues more known a mid) :
    (r.map f).Continues more known (f a) mid := by
  obtain ⟨further, rfl, ext⟩ := first
  exact ⟨further, rfl, ext⟩

end Parsed

namespace Parse
variable (more : List Token) (known : Arities)

/-- A production has read something and knows some headers then, and it reads the same in a longer
    text with as much fuel or more, provided that the calls in it fit. -/
def Carries {α : Type} (production : Nat → Cursor → Parsed α) (n : Nat) (c next : Cursor)
    (headers : Arities) (value : α) (fits : Prop) : Prop :=
  next.arities = headers ∧ ∀ ⦃longer : Cursor⦄ ⦃k : Nat⦄, c.Extends more known longer →
    n ≤ k → fits → (production k longer).Continues more known value next

structure ExprExtends (n : Nat) : Prop where
  expr {level : Level} {c next : Cursor} {e : Expr} (read : expr n level c = .ok e next) :
    Carries more known (expr · level) n c next c.arities e (e.Heeds known c.arities)
  operators {level : Level} {left e : Expr} {c next : Cursor}
    (read : operators n level left c = .ok e next) :
    Carries more known (operators · level left) n c next c.arities e (e.Heeds known c.arities) ∧
      ∀ own, e.Heeds known own → left.Heeds known own
  operand {c next : Cursor} {e : Expr} (read : operand n c = .ok e next) :
    Carries more known operand n c next c.arities e (e.Heeds known c.arities)
  arguments {name : Name} {c next : Cursor} {es : List Expr}
    (read : arguments n name c = .ok es next) :
    Carries more known (arguments · name) n c next c.arities es
      (Heeded known c.arities name es.length ∧ HeedsArgs known c.arities es)
  openArguments {c next : Cursor} {es : List Expr} (read : openArguments n c = .ok es next) :
    Carries more known openArguments n c next c.arities es (HeedsArgs known c.arities es) ∧
      ∀ name, Carries more known (exactArguments · name es.length) n c next c.arities es
        (HeedsArgs known c.arities es)
  exactArguments {name : Name} {arity : Nat} {c next : Cursor} {es : List Expr}
    (read : exactArguments n name arity c = .ok es next) :
    Carries more known (Parse.exactArguments · name arity) n c next c.arities es
      (HeedsArgs known c.arities es)

variable {more known}

theorem carries_succ {α : Type} {production : Nat → Cursor → Parsed α} {n : Nat}
    {c next : Cursor} {headers : Arities} {value : α} {fits : Prop}
    (kept : next.arities = headers)
    (step : ∀ ⦃longer : Cursor⦄ ⦃k : Nat⦄, c.Extends more known longer → n ≤ k → fits →
      (production (k + 1) longer).Continues more known value next) :
    Carries more known production (n + 1) c next headers value fits := by
  refine ⟨kept, fun longer k ext fuel holds => ?_⟩
  obtain ⟨k, rfl⟩ : ∃ j, k = j + 1 := ⟨k - 1, by omega⟩
  exact step ext (by omega) holds

theorem carries_token {α : Type} {production : Nat → Cursor → Parsed α} {c : Cursor} {value : α}
    {fits : Prop} {n : Nat} (ahead : c.rest ≠ [])
    (step : ∀ (longer : Cursor) (k : Nat), longer.peek = c.peek →
      production (k + 1) longer = .ok value longer.advance) :
    Carries more known production (n + 1) c c.advance c.arities value fits :=
  carries_succ c.advance_arities fun longer k ext _ _ =>
    ⟨longer.advance, step longer k (ext.peek ahead), ext.advance ahead⟩

theorem expect_carries (more : List Token) (known : Arities) {k : TokenKind} {c next : Cursor}
    {t : Token}
    (found : expect k c = .ok t next) (proper : k ≠ .eof) :
    next.arities = c.arities ∧ ∀ ⦃longer : Cursor⦄, c.Extends more known longer →
      (expect k longer).Continues more known t next := by
  obtain ⟨rfl, kind, rfl⟩ := expect_reads found
  have ahead : c.rest ≠ [] := Cursor.rest_ne_nil kind proper
  refine ⟨c.advance_arities, fun longer ext => ⟨longer.advance, ?_, ext.advance ahead⟩⟩
  have same : (longer.kind == k) = true := by
    rw [ext.kind ahead, Cursor.kind, kind]
    exact beq_self_eq_true k
  rw [expect, if_pos same, ext.peek ahead]

section
variable {n : Nat} (ih : ExprExtends more known n)
include ih

theorem expr_extends_succ {level : Level} {c next : Cursor} {e : Expr}
    (read : expr (n + 1) level c = .ok e next) :
    Carries more known (expr · level) (n + 1) c next c.arities e (e.Heeds known c.arities) := by
  rw [expr] at read
  obtain ⟨left, mid, first, rest⟩ := Parsed.bind_eq_ok read
  obtain ⟨kept, carried⟩ := ih.operand first
  obtain ⟨⟨same, further⟩, inside⟩ := ih.operators rest
  refine carries_succ (same.trans kept) fun longer k ext fuel heeds => ?_
  rw [expr]
  refine (carried ext fuel (inside _ heeds)).bind fun later ext => ?_
  exact further ext fuel (kept ▸ heeds)

theorem operators_extends_succ (ends : endsExpression (headKind more) = true) {level : Level}
    {left e : Expr} {c next : Cursor} (read : operators (n + 1) level left c = .ok e next) :
    Carries more known (operators · level left) (n + 1) c next c.arities e
        (e.Heeds known c.arities) ∧
      ∀ own, e.Heeds known own → left.Heeds known own := by
  rw [operators] at read
  split at read
  · rename_i no_operator
    obtain ⟨rfl, rfl⟩ := Parsed.ok.inj read
    refine ⟨carries_succ rfl fun longer k ext fuel _ => ?_, fun _ heeds => heeds⟩
    have stop : ArithOp.ofKind? longer.kind = .none := by
      by_cases ahead : c.rest = []
      · rw [ext.kind_at_end ahead]
        exact (endsExpression_iff.mp ends).1
      · rw [ext.kind ahead, no_operator]
    rw [operators, stop]
    exact ⟨longer, rfl, ext⟩
  · rename_i op found
    have ahead : c.rest ≠ [] := Cursor.rest_ne_nil (arithOp_kind_of_ofKind found).symm
      (by cases op <;> decide)
    split at read
    · rename_i binds
      obtain ⟨right, mid, first, rest⟩ := Parsed.bind_eq_ok read
      obtain ⟨kept, carried⟩ := ih.expr first
      obtain ⟨⟨same, further⟩, inside⟩ := ih.operators rest
      rw [c.advance_arities] at kept carried
      refine ⟨carries_succ (same.trans kept) fun longer k ext fuel heeds => ?_,
        fun own heeds => (inside own heeds).1⟩
      rw [operators, ext.kind ahead, found]
      simp only [binds, if_true]
      refine (carried (ext.advance ahead) fuel (inside _ heeds).2).bind fun later ext => ?_
      exact further ext fuel (kept ▸ heeds)
    · rename_i loose
      obtain ⟨rfl, rfl⟩ := Parsed.ok.inj read
      refine ⟨carries_succ rfl fun longer k ext fuel _ => ?_, fun _ heeds => heeds⟩
      rw [operators, ext.kind ahead, found]
      simp only [loose, if_false]
      exact ⟨longer, rfl, ext⟩

theorem operand_carries {level : Level} {f : Expr → Expr} {kind : TokenKind}
    {c next : Cursor} {e : Expr} (same : c.peek.kind = kind) (proper : kind ≠ .eof)
    (read : (expr n level c.advance).map f = .ok e next)
    (fits : ∀ inner, (f inner).Heeds known c.arities → inner.Heeds known c.arities)
    (reads : ∀ (longer : Cursor) (k : Nat), longer.peek = c.peek →
      operand (k + 1) longer = (expr k level longer.advance).map f) :
    Carries more known operand (n + 1) c next c.arities e (e.Heeds known c.arities) := by
  have ahead : c.rest ≠ [] := Cursor.rest_ne_nil same proper
  obtain ⟨inner, found, rfl⟩ := Parsed.map_eq_ok read
  obtain ⟨kept, carried⟩ := ih.expr found
  rw [c.advance_arities] at kept carried
  refine carries_succ kept fun longer k ext fuel heeds => ?_
  rw [reads longer k (ext.peek ahead)]
  exact (carried (ext.advance ahead) fuel (fits inner heeds)).map f

theorem operand_extends_succ {c next : Cursor} {e : Expr}
    (read : operand (n + 1) c = .ok e next) :
    Carries more known operand (n + 1) c next c.arities e (e.Heeds known c.arities) := by
  rw [operand] at read
  split at read <;> rename_i same
  · -- a number
    have ahead : c.rest ≠ [] := Cursor.rest_ne_nil same (by decide)
    split at read
    · rename_i value found
      obtain ⟨rfl, rfl⟩ := Parsed.ok.inj read
      refine carries_token ahead fun longer k peek => ?_
      simp only [operand, peek, same, found]
    · simp at read
  · obtain ⟨rfl, rfl⟩ := Parsed.ok.inj read
    refine carries_token (Cursor.rest_ne_nil same (by decide)) fun longer k peek => ?_
    simp only [operand, peek, same]
  · obtain ⟨rfl, rfl⟩ := Parsed.ok.inj read
    refine carries_token (Cursor.rest_ne_nil same (by decide)) fun longer k peek => ?_
    simp only [operand, peek, same]
  · -- a sign
    refine operand_carries ih same (by decide) read (fun _ => id) ?_
    exact fun longer k peek => by simp only [operand, peek, same]
  · -- brackets
    have ahead : c.rest ≠ [] := Cursor.rest_ne_nil same (by decide)
    obtain ⟨inner, mid, found, rest⟩ := Parsed.bind_eq_ok read
    obtain ⟨t, closed, rfl⟩ := Parsed.map_eq_ok rest
    obtain ⟨after, bracket⟩ := expect_carries more known closed (by decide)
    obtain ⟨kept, carried⟩ := ih.expr found
    rw [c.advance_arities] at kept carried
    refine carries_succ (after.trans kept) fun longer k ext fuel heeds => ?_
    simp only [operand, ext.peek ahead, same]
    refine (carried (ext.advance ahead) fuel heeds).bind fun later ext => ?_
    exact (bracket ext).map _
  · refine operand_carries ih same (by decide) read (fun _ => id) ?_
    exact fun longer k peek => by simp only [operand, peek, same]
  · -- a call
    have ahead : c.rest ≠ [] := Cursor.rest_ne_nil same (by decide)
    obtain ⟨args, found, rfl⟩ := Parsed.map_eq_ok read
    obtain ⟨kept, carried⟩ := ih.arguments found
    rw [c.advance_arities] at kept carried
    refine carries_succ kept fun longer k ext fuel heeds => ?_
    simp only [operand, ext.peek ahead, same]
    exact (carried (ext.advance ahead) fuel heeds).map _
  · simp [unexpected] at read

theorem arguments_extends_succ {name : Name} {c next : Cursor} {es : List Expr}
    (read : arguments (n + 1) name c = .ok es next) :
    Carries more known (arguments · name) (n + 1) c next c.arities es
      (Heeded known c.arities name es.length ∧ HeedsArgs known c.arities es) := by
  have lookup : ∀ longer : Cursor, c.Extends more known longer →
      longer.arity? name = (c.arity? name).or (known.lookup name) := by
    intro longer ext
    rw [Cursor.arity?, ext.arities, List.lookup_append, Cursor.arity?]
  rw [arguments] at read
  split at read
  · rename_i arity own
    obtain ⟨kept, carried⟩ := ih.exactArguments read
    refine carries_succ kept fun longer k ext fuel heeds => ?_
    rw [arguments, lookup longer ext, own, Option.some_or]
    exact carried ext fuel heeds.2
  · rename_i unknown
    obtain ⟨⟨kept, carried⟩, exactly⟩ := ih.openArguments read
    refine carries_succ kept fun longer k ext fuel heeds => ?_
    rw [arguments, lookup longer ext, unknown, Option.none_or]
    split
    · rename_i arity header
      obtain rfl := heeds.1 unknown arity header
      exact (exactly name).2 ext fuel heeds.2
    · exact carried ext fuel heeds.2

theorem exactArguments_extends_succ {name : Name} {arity : Nat} {c next : Cursor}
    {es : List Expr} (read : exactArguments (n + 1) name arity c = .ok es next) :
    Carries more known (exactArguments · name arity) (n + 1) c next c.arities es
      (HeedsArgs known c.arities es) := by
  cases arity with
  | zero =>
    obtain ⟨rfl, rfl⟩ := Parsed.ok.inj read
    exact carries_succ rfl fun longer k ext _ _ => ⟨longer, rfl, ext⟩
  | succ arity =>
    rw [exactArguments] at read
    split at read
    · rename_i starts
      have ahead : c.rest ≠ [] := by
        rintro ended
        simp [Cursor.kind, Cursor.peek, ended, startsArgument] at starts
      obtain ⟨arg, mid, first, rest⟩ := Parsed.bind_eq_ok read
      obtain ⟨args, others, rfl⟩ := Parsed.map_eq_ok rest
      obtain ⟨kept, carried⟩ := ih.expr first
      obtain ⟨same, further⟩ := ih.exactArguments others
      refine carries_succ (same.trans kept) fun longer k ext fuel heeds => ?_
      rw [exactArguments, ext.kind ahead, if_pos starts]
      refine (carried ext fuel heeds.1).bind fun later ext => ?_
      exact (further ext fuel (kept ▸ heeds.2)).map _
    · simp [expected] at read

theorem openArguments_extends_succ (ends : endsExpression (headKind more) = true)
    {c next : Cursor} {es : List Expr} (read : openArguments (n + 1) c = .ok es next) :
    Carries more known openArguments (n + 1) c next c.arities es (HeedsArgs known c.arities es) ∧
      ∀ name, Carries more known (exactArguments · name es.length) (n + 1) c next c.arities es
        (HeedsArgs known c.arities es) := by
  rw [openArguments] at read
  split at read
  · rename_i starts
    have ahead : c.rest ≠ [] := by
      rintro ended
      simp [Cursor.kind, Cursor.peek, ended, startsArgument] at starts
    obtain ⟨arg, mid, first, rest⟩ := Parsed.bind_eq_ok read
    obtain ⟨args, others, rfl⟩ := Parsed.map_eq_ok rest
    obtain ⟨kept, carried⟩ := ih.expr first
    obtain ⟨⟨same, further⟩, exactly⟩ := ih.openArguments others
    refine ⟨carries_succ (same.trans kept) fun longer k ext fuel heeds => ?_,
      fun name => carries_succ (same.trans kept) fun longer k ext fuel heeds => ?_⟩
    · rw [openArguments, ext.kind ahead, if_pos starts]
      refine (carried ext fuel heeds.1).bind fun later ext => ?_
      exact (further ext fuel (kept ▸ heeds.2)).map _
    · rw [List.length_cons, exactArguments, ext.kind ahead, starts, Bool.true_or, if_pos rfl]
      refine (carried ext fuel heeds.1).bind fun later ext => ?_
      exact ((exactly name).2 ext fuel (kept ▸ heeds.2)).map _
  · rename_i stops
    obtain ⟨rfl, rfl⟩ := Parsed.ok.inj read
    refine ⟨carries_succ rfl fun longer k ext _ _ => ?_,
      fun name => carries_succ rfl fun longer k ext _ _ => ⟨longer, rfl, ext⟩⟩
    have stop : startsArgument longer.kind = false := by
      by_cases ahead : c.rest = []
      · rw [ext.kind_at_end ahead]
        exact (endsExpression_iff.mp ends).2
      · rw [ext.kind ahead]
        simpa using stops
    rw [openArguments, stop]
    exact ⟨longer, rfl, ext⟩

end

theorem expr_extends (known : Arities) (ends : endsExpression (headKind more) = true) (n : Nat) :
    ExprExtends more known n := by
  induction n with
  | zero =>
    constructor <;> intros <;>
      simp_all [expr, operators, operand, arguments, exactArguments, openArguments, unexpected]
  | succ n ih =>
    exact ⟨expr_extends_succ ih, operators_extends_succ ih ends, operand_extends_succ ih,
      arguments_extends_succ ih, openArguments_extends_succ ih ends, exactArguments_extends_succ ih⟩

section
variable (ends : endsExpression (headKind more) = true)
include ends

theorem expression_carries (known : Arities) {c next : Cursor} {e : Expr}
    (read : expression c = .ok e next) :
    next.arities = c.arities ∧ ∀ ⦃longer : Cursor⦄, c.Extends more known longer →
      e.Heeds known c.arities → (expression longer).Continues more known e next := by
  obtain ⟨kept, carried⟩ := (expr_extends known ends c.fuel).expr read
  exact ⟨kept, fun longer ext heeds => carried ext ext.fuel heeds⟩

theorem parameters_carries (known : Arities) {n : Nat} {c next : Cursor} {params : List Name}
    (enough : c.rest.length ≤ n) (read : parameters n c = .ok params next) :
    Carries more known parameters n c next c.arities params True := by
  have stop : ∀ (d longer : Cursor) (k : Nat), d.Extends more known longer →
      (d.kind == .paramName) = false → parameters k longer = .ok [] longer := by
    intro d longer k ext other
    have no_param : (longer.kind == .paramName) = false := by
      by_cases ahead : d.rest = []
      · rw [ext.kind_at_end ahead]
        by_contra param
        have isParam : headKind more = .paramName := by simpa using param
        rw [isParam] at ends
        contradiction
      · rw [ext.kind ahead, other]
    cases k with
    | zero => rfl
    | succ k =>
      rw [parameters, no_param]
      rfl
  induction n generalizing c params with
  | zero =>
    obtain ⟨rfl, rfl⟩ := Parsed.ok.inj read
    have ended : c.rest = [] := List.length_eq_zero_iff.mp (Nat.le_zero.mp enough)
    refine ⟨rfl, fun longer k ext _ _ => ⟨longer, stop c longer k ext ?_, ext⟩⟩
    simp [Cursor.kind, Cursor.peek, ended]
  | succ n ih =>
    rw [parameters] at read
    split at read
    · rename_i param
      have ahead : c.rest ≠ [] := Cursor.rest_ne_nil (eq_of_beq param) (by decide)
      obtain ⟨t, ts, rest⟩ := List.exists_cons_of_ne_nil ahead
      obtain ⟨others, found, rfl⟩ := Parsed.map_eq_ok read
      have shorter : c.advance.rest.length ≤ n := by
        rw [rest, List.length_cons] at enough
        rw [Cursor.advance_rest rest]
        omega
      obtain ⟨kept, carried⟩ := ih shorter found
      rw [c.advance_arities] at kept
      refine carries_succ kept fun longer k ext fuel _ => ?_
      rw [parameters, ext.kind ahead, if_pos param, ext.peek ahead]
      exact (carried (ext.advance ahead) fuel trivial).map _
    · rename_i other
      obtain ⟨rfl, rfl⟩ := Parsed.ok.inj read
      refine ⟨rfl, fun longer k ext _ _ => ⟨longer, stop c longer k ext ?_, ext⟩⟩
      simpa using other

end

structure StmtExtends (more : List Token) (known : Arities) (n : Nat) : Prop where
  statement {c next : Cursor} {s : Stmt} (read : statement n c = .ok s next) :
    Carries more known statement n c next (s.declared c.arities) s (s.Heeds known c.arities)
  statementsUntil {close : TokenKind} {c next : Cursor} {ss : List Stmt} (proper : close ≠ .eof)
    (read : statementsUntil n close c = .ok ss next) :
    Carries more known (statementsUntil · close) n c next (declaredBy c.arities ss) ss
      (HeedsAll known c.arities ss)

theorem keyword_carries (ends : endsExpression (headKind more) = true) {c next : Cursor} {n : Nat}
    {s : Stmt} {f : Expr → Stmt} {kind : TokenKind} (same : c.peek.kind = kind)
    (proper : kind ≠ .eof) (read : (expression c.advance).map f = .ok s next)
    (kept : ∀ e, (f e).declared c.arities = c.arities)
    (fits : ∀ e, (f e).Heeds known c.arities → e.Heeds known c.arities)
    (reads : ∀ (longer : Cursor) (k : Nat), longer.peek = c.peek →
      statement (k + 1) longer = (expression longer.advance).map f) :
    Carries more known statement (n + 1) c next (s.declared c.arities) s
      (s.Heeds known c.arities) := by
  have ahead : c.rest ≠ [] := Cursor.rest_ne_nil same proper
  obtain ⟨e, found, rfl⟩ := Parsed.map_eq_ok read
  obtain ⟨arities, carried⟩ := expression_carries ends known found
  rw [c.advance_arities] at arities carried
  refine carries_succ (arities.trans (kept e).symm) fun longer k ext _ heeds => ?_
  rw [reads longer k (ext.peek ahead)]
  exact (carried (ext.advance ahead) (fits e heeds)).map f

section
variable {n : Nat}

theorem make_extends_succ (ends : endsExpression (headKind more) = true) {c next : Cursor}
    {s : Stmt} (same : c.peek.kind = .make) (read : statement (n + 1) c = .ok s next) :
    Carries more known statement (n + 1) c next (s.declared c.arities) s
      (s.Heeds known c.arities) := by
  simp only [statement, same] at read
  have ahead : c.rest ≠ [] := Cursor.rest_ne_nil same (by decide)
  obtain ⟨name, afterName, named, rest⟩ := Parsed.bind_eq_ok read
  obtain ⟨value, found, rfl⟩ := Parsed.map_eq_ok rest
  obtain ⟨kept, carriedName⟩ := expect_carries more known named (by decide)
  obtain ⟨keptToo, carried⟩ := expression_carries ends known found
  rw [kept, c.advance_arities] at keptToo carried
  refine carries_succ keptToo fun longer k ext fuel heeds => ?_
  simp only [statement, ext.peek ahead, same]
  refine (carriedName (ext.advance ahead)).bind fun atValue ext => ?_
  exact (carried ext heeds).map _

theorem setXY_extends_succ (ends : endsExpression (headKind more) = true) {c next : Cursor}
    {s : Stmt} (same : c.peek.kind = .setXY) (read : statement (n + 1) c = .ok s next) :
    Carries more known statement (n + 1) c next (s.declared c.arities) s
      (s.Heeds known c.arities) := by
  simp only [statement, same] at read
  have ahead : c.rest ≠ [] := Cursor.rest_ne_nil same (by decide)
  obtain ⟨x, mid, readX, rest⟩ := Parsed.bind_eq_ok read
  obtain ⟨y, readY, rfl⟩ := Parsed.map_eq_ok rest
  obtain ⟨kept, carriedX⟩ := expression_carries ends known readX
  obtain ⟨after, carriedY⟩ := expression_carries ends known readY
  rw [c.advance_arities] at kept carriedX
  rw [kept] at after carriedY
  refine carries_succ after fun longer k ext fuel heeds => ?_
  simp only [statement, ext.peek ahead, same]
  refine (carriedX (ext.advance ahead) heeds.1).bind fun atY ext => ?_
  exact (carriedY ext heeds.2).map _

variable (ih : StmtExtends more known n)
include ih

theorem statementsUntil_extends_succ {close : TokenKind} {c next : Cursor} {ss : List Stmt}
    (proper : close ≠ .eof) (read : statementsUntil (n + 1) close c = .ok ss next) :
    Carries more known (statementsUntil · close) (n + 1) c next (declaredBy c.arities ss) ss
      (HeedsAll known c.arities ss) := by
  rw [statementsUntil] at read
  split at read
  · rename_i closes
    obtain ⟨rfl, rfl⟩ := Parsed.ok.inj read
    have ahead : c.rest ≠ [] := Cursor.rest_ne_nil (eq_of_beq closes) proper
    refine carries_succ c.advance_arities fun longer k ext _ _ => ?_
    rw [statementsUntil, ext.kind ahead, if_pos closes]
    exact ⟨longer.advance, rfl, ext.advance ahead⟩
  · rename_i opens
    split at read
    · simp [expected] at read
    · rename_i going
      have ahead : c.rest ≠ [] := by
        intro ended
        simp [Cursor.kind, Cursor.peek, ended] at going
      obtain ⟨s, mid, first, rest⟩ := Parsed.bind_eq_ok read
      obtain ⟨others, found, rfl⟩ := Parsed.map_eq_ok rest
      obtain ⟨kept, carried⟩ := ih.statement first
      obtain ⟨same, further⟩ := ih.statementsUntil proper found
      refine carries_succ (by rw [same, kept, declaredBy]) fun longer k ext fuel heeds => ?_
      rw [statementsUntil, ext.kind ahead, if_neg opens, if_neg going]
      refine (carried ext fuel heeds.1).bind fun later ext => ?_
      exact (further ext fuel (kept ▸ heeds.2)).map _

theorem define_extends_succ (ends : endsExpression (headKind more) = true) {c next : Cursor}
    {s : Stmt} (same : c.peek.kind = .define) (read : statement (n + 1) c = .ok s next) :
    Carries more known statement (n + 1) c next (s.declared c.arities) s
      (s.Heeds known c.arities) := by
  simp only [statement, same] at read
  have ahead : c.rest ≠ [] := Cursor.rest_ne_nil same (by decide)
  obtain ⟨name, afterName, named, rest⟩ := Parsed.bind_eq_ok read
  obtain ⟨params, afterParams, found, rest⟩ := Parsed.bind_eq_ok rest
  obtain ⟨body, block, rfl⟩ := Parsed.map_eq_ok rest
  obtain ⟨kept, carriedName⟩ := expect_carries more known named (by decide)
  obtain ⟨keptToo, carriedParams⟩ := parameters_carries ends known (Nat.le_refl _) found
  obtain ⟨after, carriedBody⟩ := ih.statementsUntil (by decide) block
  have arities : afterParams.arities = c.arities := by
    rw [keptToo, kept, c.advance_arities]
  have declared : (afterParams.declare name.literal params.length).arities =
      (name.literal, params.length) :: c.arities := by
    rw [Cursor.declare, arities]
  rw [declared] at after carriedBody
  refine carries_succ after fun longer k ext fuel heeds => ?_
  simp only [statement, ext.peek ahead, same]
  refine (carriedName (ext.advance ahead)).bind fun atParams ext => ?_
  refine (carriedParams ext ext.length trivial).bind fun atBody ext => ?_
  exact (carriedBody (ext.declare _ _) fuel heeds).map _

theorem loop_extends_succ (ends : endsExpression (headKind more) = true) {c next : Cursor}
    {s : Stmt} (same : c.peek.kind = .loop) (read : statement (n + 1) c = .ok s next) :
    Carries more known statement (n + 1) c next (s.declared c.arities) s
      (s.Heeds known c.arities) := by
  simp only [statement, same] at read
  have ahead : c.rest ≠ [] := Cursor.rest_ne_nil same (by decide)
  obtain ⟨count, afterCount, counted, rest⟩ := Parsed.bind_eq_ok read
  obtain ⟨kept, carried⟩ := expression_carries ends known counted
  rw [c.advance_arities] at kept carried
  split at rest <;> rename_i follows
  · have inside : afterCount.rest ≠ [] := Cursor.rest_ne_nil follows (by decide)
    obtain ⟨body, block, rfl⟩ := Parsed.map_eq_ok rest
    obtain ⟨after, carriedBody⟩ := ih.statementsUntil (by decide) block
    rw [afterCount.advance_arities, kept] at after carriedBody
    refine carries_succ after fun longer k ext fuel heeds => ?_
    simp only [statement, ext.peek ahead, same]
    refine (carried (ext.advance ahead) heeds.1).bind fun atBlock ext => ?_
    rw [ext.kind inside, follows]
    exact (carriedBody (ext.advance inside) fuel heeds.2).map _
  · have inside : afterCount.rest ≠ [] := Cursor.rest_ne_nil follows (by decide)
    obtain ⟨rfl, rfl⟩ := Parsed.ok.inj rest
    refine carries_succ (afterCount.advance_arities.trans kept) fun longer k ext fuel heeds => ?_
    simp only [statement, ext.peek ahead, same]
    refine (carried (ext.advance ahead) heeds).bind fun atTarget ext => ?_
    rw [ext.kind inside, follows, ext.peek inside]
    exact ⟨atTarget.advance, rfl, ext.advance inside⟩
  · simp [expected] at rest

theorem test_extends_succ (ends : endsExpression (headKind more) = true) {c next : Cursor}
    {s : Stmt} (same : c.peek.kind = .test) (read : statement (n + 1) c = .ok s next) :
    Carries more known statement (n + 1) c next (s.declared c.arities) s
      (s.Heeds known c.arities) := by
  simp only [statement, same] at read
  have ahead : c.rest ≠ [] := Cursor.rest_ne_nil same (by decide)
  obtain ⟨left, afterLeft, readLeft, rest⟩ := Parsed.bind_eq_ok read
  obtain ⟨kept, carriedLeft⟩ := expression_carries ends known readLeft
  rw [c.advance_arities] at kept carriedLeft
  split at rest
  · simp [expected] at rest
  · rename_i op found
    have inside : afterLeft.rest ≠ [] := Cursor.rest_ne_nil (comparison_kind_of_ofKind found).symm
      (by cases op <;> decide)
    obtain ⟨right, afterRight, readRight, rest⟩ := Parsed.bind_eq_ok rest
    obtain ⟨t, afterBracket, bracket, rest⟩ := Parsed.bind_eq_ok rest
    obtain ⟨body, block, rfl⟩ := Parsed.map_eq_ok rest
    obtain ⟨keptRight, carriedRight⟩ := expression_carries ends known readRight
    obtain ⟨keptBracket, carriedBracket⟩ :=
      expect_carries more known bracket (by decide)
    obtain ⟨after, carriedBody⟩ := ih.statementsUntil (by decide) block
    rw [afterLeft.advance_arities, kept] at keptRight carriedRight
    rw [keptBracket, keptRight] at after carriedBody
    refine carries_succ after fun longer k ext fuel heeds => ?_
    simp only [statement, ext.peek ahead, same]
    refine (carriedLeft (ext.advance ahead) heeds.1).bind fun atOp ext => ?_
    rw [ext.kind inside, found]
    refine (carriedRight (ext.advance inside) heeds.2.1).bind fun atBracket ext => ?_
    refine (carriedBracket ext).bind fun atBody ext => ?_
    exact (carriedBody ext fuel heeds.2.2).map _

theorem statement_extends_succ (ends : endsExpression (headKind more) = true) {c next : Cursor}
    {s : Stmt} (read : statement (n + 1) c = .ok s next) :
    Carries more known statement (n + 1) c next (s.declared c.arities) s
      (s.Heeds known c.arities) := by
  have whole := read
  rw [statement] at read
  split at read <;> rename_i same
  · exact define_extends_succ ih ends same whole
  · exact make_extends_succ ends same whole
  · exact loop_extends_succ ih ends same whole
  · exact test_extends_succ ih ends same whole
  · obtain ⟨rfl, rfl⟩ := Parsed.ok.inj read
    refine carries_token (Cursor.rest_ne_nil same (by decide)) fun longer k peek => ?_
    simp only [statement, peek, same]
  · refine keyword_carries ends same (by decide) read (fun _ => rfl) (fun _ => id) ?_
    exact fun longer k peek => by simp only [statement, peek, same]
  · obtain ⟨rfl, rfl⟩ := Parsed.ok.inj read
    refine carries_token (Cursor.rest_ne_nil same (by decide)) fun longer k peek => ?_
    simp only [statement, peek, same]
  · exact setXY_extends_succ ends same whole
  · refine keyword_carries ends same (by decide) read (fun _ => rfl) (fun _ => id) ?_
    exact fun longer k peek => by simp only [statement, peek, same]
  · obtain ⟨rfl, rfl⟩ := Parsed.ok.inj read
    refine carries_token (Cursor.rest_ne_nil same (by decide)) fun longer k peek => ?_
    simp only [statement, peek, same]
  · obtain ⟨rfl, rfl⟩ := Parsed.ok.inj read
    refine carries_token (Cursor.rest_ne_nil same (by decide)) fun longer k peek => ?_
    simp only [statement, peek, same]
  · refine keyword_carries ends same (by decide) read (fun _ => rfl) (fun _ => id) ?_
    exact fun longer k peek => by simp only [statement, peek, same]
  · refine keyword_carries ends same (by decide) read (fun _ => rfl) (fun _ => id) ?_
    exact fun longer k peek => by simp only [statement, peek, same]
  · refine keyword_carries ends same (by decide) read (fun _ => rfl) (fun _ => id) ?_
    exact fun longer k peek => by simp only [statement, peek, same]
  · refine keyword_carries ends same (by decide) read (fun _ => rfl) (fun _ => id) ?_
    exact fun longer k peek => by simp only [statement, peek, same]
  · -- a call
    have ahead : c.rest ≠ [] := Cursor.rest_ne_nil same (by decide)
    obtain ⟨args, found, rfl⟩ := Parsed.map_eq_ok read
    obtain ⟨kept, carried⟩ := (expr_extends known ends _).arguments found
    rw [c.advance_arities] at kept carried
    refine carries_succ kept fun longer k ext fuel heeds => ?_
    simp only [statement, ext.peek ahead, same]
    exact (carried (ext.advance ahead) (ext.advance ahead).fuel heeds).map _
  · simp [unexpected] at read

end

theorem stmt_extends (known : Arities) (ends : endsExpression (headKind more) = true) (n : Nat) :
    StmtExtends more known n := by
  induction n with
  | zero => constructor <;> intros <;> simp_all [statement, statementsUntil, unexpected]
  | succ n ih => exact ⟨statement_extends_succ ih ends, statementsUntil_extends_succ ih⟩

end Parse
end TurtleLogo
