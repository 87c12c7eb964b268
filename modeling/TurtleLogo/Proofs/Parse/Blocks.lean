import TurtleLogo.Proofs.Parse.Nesting

/-!
The blocks of a program. The tree of a program tells how many tokens each node has, and so which
tokens open and close a block. Behind any number of tokens there are as many open blocks as the
nesting of these tokens adds up to.
-/
namespace TurtleLogo

/-- A block by the tokens that open and close it, counted from zero. The body of a procedure is open
    from the beginning of its header. -/
structure Block where
  sort : Opener
  opener : Nat
  closer : Nat
  deriving DecidableEq, Repr

def Block.isOpen (b : Block) (count : Nat) : Bool := b.opener < count && count ≤ b.closer

mutual

def Stmt.blocks (start : Nat) : Stmt → List Block
  | .define _ _ _ params body =>
    let inside := start + 1 + (params.length + 1)
    ⟨.define, start, inside + (lexemesOf body).length⟩ :: blocksOf inside body
  | .loop _ count body =>
    let bracket := start + (count.lexemes.length + 1)
    ⟨.bracket, bracket, bracket + 1 + (lexemesOf body).length⟩ :: blocksOf (bracket + 1) body
  | .test _ left _ right body =>
    let bracket := start + (left.lexemes.length + right.lexemes.length + 2)
    ⟨.bracket, bracket, bracket + 1 + (lexemesOf body).length⟩ :: blocksOf (bracket + 1) body
  | _ => []

def blocksOf (start : Nat) : List Stmt → List Block
  | [] => []
  | s :: rest => s.blocks start ++ blocksOf (start + s.lexemes.length) rest

end

def Program.blocks (p : Program) : List Block := blocksOf 0 p.statements

/-- The block stands in a word that has a number of tokens before it. -/
structure Block.Stands (b : Block) (start : Nat) (w : List TokenKind) : Prop where
  start_le : start ≤ b.opener
  order : b.opener < b.closer
  opener : w[b.opener - start]? = some b.sort.kind
  closer : w[b.closer - start]? = some b.sort.closing

namespace Block.Stands
variable {b : Block} {start : Nat} {v w : List TokenKind}

theorem before (stands : b.Stands start v) (w : List TokenKind) : b.Stands start (v ++ w) where
  start_le := stands.start_le
  order := stands.order
  opener := by
    have inside := (List.getElem?_eq_some_iff.mp stands.opener).1
    rw [List.getElem?_append_left inside, stands.opener]
  closer := by
    have inside := (List.getElem?_eq_some_iff.mp stands.closer).1
    rw [List.getElem?_append_left inside, stands.closer]

theorem behind (stands : b.Stands (start + v.length) w) : b.Stands start (v ++ w) := by
  obtain ⟨bound, order, opener, closer⟩ := stands
  refine ⟨by omega, order, ?_, ?_⟩
  · rw [List.getElem?_append_right (by omega), Nat.sub_sub, opener]
  · rw [List.getElem?_append_right (by omega), Nat.sub_sub, closer]

end Block.Stands

/-- The blocks of a word that has a number of tokens before it: they stand in it, and there are no
    others. -/
structure Spans (start : Nat) (w : List TokenKind) (blocks : List Block) : Prop where
  depth (count : Nat) :
    nestingOf (w.take (count - start)) = blocks.countP fun b => b.isOpen count
  stands : ∀ b ∈ blocks, b.Stands start w

theorem nestingOf_take_neutral {w : List TokenKind} (neutral : ∀ k ∈ w, k.nesting = 0) (n : Nat) :
    nestingOf (w.take n) = 0 :=
  Nested.nesting_eq_zero (.of_neutral fun k member => neutral k (List.mem_of_mem_take member))

theorem nestingOf_take_block (o : Opener) (w : List TokenKind) (n : Nat) :
    nestingOf ((o.kind :: (w ++ [o.closing])).take n) =
      (if 0 < n ∧ n ≤ w.length + 1 then 1 else 0) + nestingOf (w.take (n - 1)) := by
  cases n with
  | zero => rfl
  | succ n =>
    rw [List.take_succ_cons, nestingOf_cons, List.take_append, nestingOf_append, o.kind_nesting,
      Nat.add_sub_cancel]
    by_cases closed : w.length < n
    · obtain ⟨m, more⟩ : ∃ m, n - w.length = m + 1 := ⟨n - w.length - 1, by omega⟩
      rw [more, List.take_succ_cons, List.take_nil, nestingOf_cons, nestingOf_nil,
        o.closing_nesting, if_neg (by omega)]
      omega
    · have short : n - w.length = 0 := by omega
      rw [short, List.take_zero, nestingOf_nil, if_pos (by omega), Int.add_zero]

namespace Spans
variable {start : Nat} {v w : List TokenKind} {blocks more : List Block}

theorem of_neutral (neutral : ∀ k ∈ w, k.nesting = 0) (start : Nat) : Spans start w [] where
  depth count := nestingOf_take_neutral neutral (count - start)
  stands := by simp

theorem append (first : Spans start v blocks) (second : Spans (start + v.length) w more) :
    Spans start (v ++ w) (blocks ++ more) where
  depth count := by
    have rest : count - start - v.length = count - (start + v.length) := by omega
    rw [List.take_append, nestingOf_append, rest, first.depth, second.depth, List.countP_append,
      Int.natCast_add]
  stands b member := by
    rcases List.mem_append.mp member with before | behind
    · exact (first.stands b before).before w
    · exact (second.stands b behind).behind

theorem block (o : Opener) (inner : Spans (start + 1) w blocks) :
    Spans start (o.kind :: (w ++ [o.closing])) (⟨o, start, start + 1 + w.length⟩ :: blocks) where
  depth count := by
    have opened : Block.isOpen ⟨o, start, start + 1 + w.length⟩ count = true ↔
        0 < count - start ∧ count - start ≤ w.length + 1 := by
      simp only [Block.isOpen, Bool.and_eq_true, decide_eq_true_eq]
      omega
    rw [nestingOf_take_block, Nat.sub_sub, inner.depth, List.countP_cons]
    by_cases now : 0 < count - start ∧ count - start ≤ w.length + 1
    · rw [if_pos now, if_pos (opened.mpr now), Int.natCast_add, Int.add_comm]
      rfl
    · rw [if_neg now, if_neg fun holds => now (opened.mp holds), Int.zero_add, Nat.add_zero]
  stands b member := by
    rcases List.mem_cons.mp member with rfl | within
    · have last : start + 1 + w.length - start = w.length + 1 := by omega
      refine ⟨Nat.le_refl _, by simp only; omega, by simp, ?_⟩
      rw [last, List.getElem?_cons_succ, List.getElem?_concat_length]
    · exact ((inner.stands b within).before [o.closing]).behind (v := [o.kind])

theorem behind (neutral : ∀ k ∈ v, k.nesting = 0) (block : Spans (start + v.length) w blocks) :
    Spans start (v ++ w) blocks :=
  (of_neutral neutral start).append block

end Spans

namespace Lexeme

theorem kinds_append (xs ys : List Lexeme) : kinds (xs ++ ys) = kinds xs ++ kinds ys :=
  List.map_append

theorem kinds_length (xs : List Lexeme) : (kinds xs).length = xs.length := List.length_map _

end Lexeme

theorem expr_kinds_neutral (e : Expr) : ∀ k ∈ Lexeme.kinds e.lexemes, k.nesting = 0 :=
  Lexeme.kinds_neutral (expr_neutral e)

theorem spans_brackets {front : List TokenKind} {body : List Stmt}
    (neutral : ∀ k ∈ front, k.nesting = 0)
    (inner : ∀ start, Spans start (Lexeme.kinds (lexemesOf body)) (blocksOf start body))
    (start : Nat) :
    Spans start (front ++ .leftBracket :: (Lexeme.kinds (lexemesOf body) ++ [.rightBracket]))
      (⟨.bracket, start + front.length,
        start + front.length + 1 + (lexemesOf body).length⟩ ::
          blocksOf (start + front.length + 1) body) := by
  have block := Spans.block .bracket (inner (start + front.length + 1))
  rw [Lexeme.kinds_length] at block
  exact Spans.behind neutral block

mutual

theorem spans_stmt : ∀ (s : Stmt) (start : Nat),
    Spans start (Lexeme.kinds s.lexemes) (s.blocks start)
  | .define _ _ _ params body, start => by
    have header : ∀ k ∈ TokenKind.identifier :: params.map fun _ => .paramName,
        k.nesting = 0 := by
      simp [TokenKind.nesting]
    have inner := Spans.behind header (spans_stmts body (start + 1 + _))
    have whole := Spans.block .define inner
    rw [List.length_append, Lexeme.kinds_length] at whole
    simpa [Stmt.lexemes, Stmt.blocks, Lexeme.kinds, Lexeme.opening, Lexeme.inner, Opener.kind,
      Opener.closing, Nat.add_assoc, Function.comp_def] using whole
  | .loop _ count body, start => by
    have front : ∀ k ∈ TokenKind.loop :: Lexeme.kinds count.lexemes, k.nesting = 0 :=
      List.forall_mem_cons.mpr ⟨rfl, expr_kinds_neutral count⟩
    have whole := spans_brackets front (spans_stmts body) start
    simpa [Stmt.lexemes, Stmt.blocks, Lexeme.kinds, Lexeme.opening, Lexeme.inner] using whole
  | .test _ left op right body, start => by
    have front : ∀ k ∈ TokenKind.test :: (Lexeme.kinds left.lexemes ++
        op.kind :: Lexeme.kinds right.lexemes), k.nesting = 0 := by
      refine List.forall_mem_cons.mpr ⟨rfl,
        List.forall_mem_append.mpr ⟨expr_kinds_neutral left, ?_⟩⟩
      exact List.forall_mem_cons.mpr ⟨by cases op <;> rfl, expr_kinds_neutral right⟩
    have whole := spans_brackets front (spans_stmts body) start
    simpa [Stmt.lexemes, Stmt.blocks, Lexeme.kinds, Lexeme.opening, Lexeme.inner, Nat.add_assoc]
      using whole
  | .make .., start | .loopCall .., start | .pen .., start | .move .., start | .turn .., start
  | .home _, start | .setXY .., start | .setHeading .., start | .call .., start | .stop _, start
  | .output .., start => .of_neutral (Lexeme.kinds_neutral (stmt_neutral _ rfl)) start

theorem spans_stmts : ∀ (ss : List Stmt) (start : Nat),
    Spans start (Lexeme.kinds (lexemesOf ss)) (blocksOf start ss)
  | [], start => .of_neutral (by simp [lexemesOf, Lexeme.kinds]) start
  | s :: rest, start => by
    have second := spans_stmts rest (start + s.lexemes.length)
    rw [← Lexeme.kinds_length] at second
    rw [lexemesOf, Lexeme.kinds_append, blocksOf, ← Lexeme.kinds_length s.lexemes]
    exact (spans_stmt s start).append second

end

theorem spans_program {source : Text.Bytes} {p : Program} (accepted : parse source = .ok p) :
    Spans 0 (tokenKinds source) p.blocks := by
  rw [tokenKinds_eq accepted]
  exact spans_stmts p.statements 0

def closersAhead (w : List TokenKind) : Nat :=
  (w.takeWhile fun k => k == .rightBracket || k == .endDefine).length

theorem closes_iff (k : TokenKind) :
    (k == .rightBracket || k == .endDefine) = decide (k.nesting < 0) := by
  cases k <;> rfl

theorem closersAhead_cons (k : TokenKind) (w : List TokenKind) :
    closersAhead (k :: w) = if k.nesting < 0 then closersAhead w + 1 else 0 := by
  rw [closersAhead, List.takeWhile_cons, closes_iff]
  by_cases closes : k.nesting < 0 <;> simp [closes, closersAhead]

theorem nestingOf_closers (w : List TokenKind) :
    nestingOf (w.take (closersAhead w)) = -(closersAhead w : Int) := by
  induction w with
  | nil => rfl
  | cons k w ih =>
    rw [closersAhead_cons]
    by_cases closes : k.nesting < 0
    · have minus : k.nesting = -1 := by cases k <;> first | rfl | simp [TokenKind.nesting] at closes
      rw [if_pos closes, List.take_succ_cons, nestingOf_cons, ih, minus]
      omega
    · rw [if_neg closes]
      rfl

theorem closes_of_ahead {w : List TokenKind} {i : Nat} {k : TokenKind} (ahead : i < closersAhead w)
    (here : w[i]? = some k) : k.nesting < 0 := by
  induction w generalizing i with
  | nil => simp at here
  | cons first w ih =>
    rw [closersAhead_cons] at ahead
    split at ahead
    · rename_i closes
      cases i with
      | zero =>
        obtain rfl : first = k := by simpa using here
        exact closes
      | succ i =>
        rw [List.getElem?_cons_succ] at here
        exact ih (Nat.lt_of_succ_lt_succ ahead) here
    · omega

theorem closersAhead_le (w : List TokenKind) : closersAhead w ≤ w.length :=
  (List.takeWhile_prefix _).length_le

theorem Spans.remaining {v w rest : List TokenKind} {blocks : List Block}
    (spans : Spans 0 (v ++ (w ++ rest)) blocks) :
    ((blocks.countP fun b => b.isOpen v.length && !(b.closer < v.length + closersAhead w) : Nat)
      : Int) = nestingOf v - closersAhead w := by
  have bound := closersAhead_le w
  -- none of the tokens that close blocks opens one
  have outside : ∀ b ∈ blocks, b.opener < v.length + closersAhead w → b.opener < v.length := by
    intro b member early
    by_contra inside
    have here := (spans.stands b member).opener
    rw [Nat.sub_zero, List.getElem?_append_right (Nat.not_lt.mp inside),
      List.getElem?_append_left (by omega)] at here
    have closes := closes_of_ahead (by omega) here
    rw [b.sort.kind_nesting] at closes
    exact absurd closes (by decide)
  have same : (blocks.countP fun b =>
      b.isOpen v.length && !(b.closer < v.length + closersAhead w)) =
        blocks.countP fun b => b.isOpen (v.length + closersAhead w) := by
    refine List.countP_congr fun b member => ?_
    have := outside b member
    simp only [Block.isOpen, Bool.and_eq_true, Bool.not_eq_true', decide_eq_true_eq,
      decide_eq_false_iff_not]
    omega
  have depth := spans.depth (v.length + closersAhead w)
  rw [same, ← depth, Nat.sub_zero, List.take_length_add_append, List.take_append_of_le_length bound,
    nestingOf_append, nestingOf_closers]
  omega

end TurtleLogo
