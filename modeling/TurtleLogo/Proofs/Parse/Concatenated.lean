import TurtleLogo.Lint
import TurtleLogo.Proofs.Parse.Bare
import TurtleLogo.Proofs.Parse.Extend
import TurtleLogo.Proofs.Scan.Lines

/-!
Two texts as one. A text behind another one and a newline has the tokens of both, and the program
of the whole is the one program followed by the other, provided that the calls of the second have
as many arguments as the headers in the first ask for.
-/
namespace TurtleLogo
open Text

section
variable (place : Position → Position)

mutual

theorem declared_moved (known : Arities) : ∀ s : Stmt,
    (s.moved place).declared known = s.declared known
  | .define _ name _ params body => declaredBy_moved ((name, params.length) :: known) body
  | .loop _ _ body => declaredBy_moved known body
  | .test _ _ _ _ body => declaredBy_moved known body
  | .make .. | .loopCall .. | .pen .. | .move .. | .turn .. | .home _ | .setXY .. | .setHeading ..
  | .call .. | .stop _ | .output .. => rfl

theorem declaredBy_moved (known : Arities) : ∀ ss : List Stmt,
    declaredBy known (movedAll place ss) = declaredBy known ss
  | [] => rfl
  | s :: rest => by
    rw [movedAll, declaredBy, declared_moved known s, declaredBy_moved _ rest, declaredBy]

end

variable (known : Arities)

mutual

theorem expr_heeds_moved (own : Arities) : ∀ e : Expr,
    e.Heeds known own → (e.moved place).Heeds known own
  | .number .., _ | .param .., _ | .var .., _ => trivial
  | .negate _ e, heeds | .group _ e, heeds | .random _ e, heeds => expr_heeds_moved own e heeds
  | .binary _ left right, heeds =>
    ⟨expr_heeds_moved own left heeds.1, expr_heeds_moved own right heeds.2⟩
  | .call _ name args, heeds =>
    ⟨by rw [movedArgs_length]; exact heeds.1, args_heed_moved own args heeds.2⟩

theorem args_heed_moved (own : Arities) : ∀ es : List Expr,
    HeedsArgs known own es → HeedsArgs known own (movedArgs place es)
  | [], _ => trivial
  | e :: rest, heeds => ⟨expr_heeds_moved own e heeds.1, args_heed_moved own rest heeds.2⟩

end

mutual

theorem stmt_heeds_moved (own : Arities) : ∀ s : Stmt,
    s.Heeds known own → (s.moved place).Heeds known own
  | .define _ name _ params body, heeds => heeds_moved ((name, params.length) :: own) body heeds
  | .loop _ count body, heeds =>
    ⟨expr_heeds_moved place known own count heeds.1, heeds_moved own body heeds.2⟩
  | .test _ left _ right body, heeds =>
    ⟨expr_heeds_moved place known own left heeds.1,
      expr_heeds_moved place known own right heeds.2.1, heeds_moved own body heeds.2.2⟩
  | .call _ name args, heeds =>
    ⟨by rw [movedArgs_length]; exact heeds.1, args_heed_moved place known own args heeds.2⟩
  | .make _ _ e, heeds | .loopCall _ e _, heeds | .move _ _ e, heeds | .turn _ _ e, heeds
  | .setHeading _ e, heeds | .output _ e, heeds => expr_heeds_moved place known own e heeds
  | .setXY _ x y, heeds =>
    ⟨expr_heeds_moved place known own x heeds.1, expr_heeds_moved place known own y heeds.2⟩
  | .pen .., _ | .home _, _ | .stop _, _ => trivial

theorem heeds_moved (own : Arities) : ∀ ss : List Stmt,
    HeedsAll known own ss → HeedsAll known own (movedAll place ss)
  | [], _ => trivial
  | s :: rest, heeds => by
    refine ⟨stmt_heeds_moved own s heeds.1, ?_⟩
    rw [declared_moved]
    exact heeds_moved (s.declared own) rest heeds.2

end
end

mutual

def Expr.called : Expr → List Name
  | .number .. | .param .. | .var .. => []
  | .negate _ e | .group _ e | .random _ e => e.called
  | .binary _ left right => left.called ++ right.called
  | .call _ name args => name :: calledByArgs args

def calledByArgs : List Expr → List Name
  | [] => []
  | e :: rest => e.called ++ calledByArgs rest

end

mutual

def Stmt.called : Stmt → List Name
  | .define _ _ _ _ body => calledBy body
  | .loop _ count body => count.called ++ calledBy body
  | .test _ left _ right body => left.called ++ (right.called ++ calledBy body)
  | .call _ name args => name :: calledByArgs args
  | .make _ _ e | .loopCall _ e _ | .move _ _ e | .turn _ _ e | .setHeading _ e | .output _ e =>
    e.called
  | .setXY _ x y => x.called ++ y.called
  | .pen .. | .home _ | .stop _ => []

/-- The procedures that statements call, here or within definitions. For the target of a loop no
    arguments are read, and it is left out. -/
def calledBy : List Stmt → List Name
  | [] => []
  | s :: rest => s.called ++ calledBy rest

end

section
variable {known : Arities}

theorem heeded_of_unknown {name : Name} (unknown : known.lookup name = none) (own : Arities)
    (arguments : Nat) : Heeded known own name arguments := by
  intro _ arity found
  rw [unknown] at found
  exact absurd found nofun

mutual

theorem expr_heeds_of_unknown (own : Arities) : ∀ e : Expr,
    (∀ name ∈ e.called, known.lookup name = none) → e.Heeds known own
  | .number .., _ | .param .., _ | .var .., _ => trivial
  | .negate _ e, unknown | .group _ e, unknown | .random _ e, unknown =>
    expr_heeds_of_unknown own e unknown
  | .binary _ left right, unknown =>
    have apart := List.forall_mem_append.mp unknown
    ⟨expr_heeds_of_unknown own left apart.1, expr_heeds_of_unknown own right apart.2⟩
  | .call _ _ args, unknown =>
    have apart := List.forall_mem_cons.mp unknown
    ⟨heeded_of_unknown apart.1 own _, args_heed_of_unknown own args apart.2⟩

theorem args_heed_of_unknown (own : Arities) : ∀ es : List Expr,
    (∀ name ∈ calledByArgs es, known.lookup name = none) → HeedsArgs known own es
  | [], _ => trivial
  | e :: rest, unknown =>
    have apart := List.forall_mem_append.mp unknown
    ⟨expr_heeds_of_unknown own e apart.1, args_heed_of_unknown own rest apart.2⟩

end

mutual

theorem stmt_heeds_of_unknown (own : Arities) : ∀ s : Stmt,
    (∀ name ∈ s.called, known.lookup name = none) → s.Heeds known own
  | .define _ name _ params body, unknown =>
    heeds_of_unknown ((name, params.length) :: own) body unknown
  | .loop _ count body, unknown =>
    have apart := List.forall_mem_append.mp unknown
    ⟨expr_heeds_of_unknown own count apart.1, heeds_of_unknown own body apart.2⟩
  | .test _ left _ right body, unknown =>
    have apart := List.forall_mem_append.mp unknown
    have further := List.forall_mem_append.mp apart.2
    ⟨expr_heeds_of_unknown own left apart.1, expr_heeds_of_unknown own right further.1,
      heeds_of_unknown own body further.2⟩
  | .call _ _ args, unknown =>
    have apart := List.forall_mem_cons.mp unknown
    ⟨heeded_of_unknown apart.1 own _, args_heed_of_unknown own args apart.2⟩
  | .make _ _ e, unknown | .loopCall _ e _, unknown | .move _ _ e, unknown
  | .turn _ _ e, unknown | .setHeading _ e, unknown | .output _ e, unknown =>
    expr_heeds_of_unknown own e unknown
  | .setXY _ x y, unknown =>
    have apart := List.forall_mem_append.mp unknown
    ⟨expr_heeds_of_unknown own x apart.1, expr_heeds_of_unknown own y apart.2⟩
  | .pen .., _ | .home _, _ | .stop _, _ => trivial

theorem heeds_of_unknown (own : Arities) : ∀ ss : List Stmt,
    (∀ name ∈ calledBy ss, known.lookup name = none) → HeedsAll known own ss
  | [], _ => trivial
  | s :: rest, unknown =>
    have apart := List.forall_mem_append.mp unknown
    ⟨stmt_heeds_of_unknown own s apart.1, heeds_of_unknown (s.declared own) rest apart.2⟩

end
end

theorem heeds_nil (own : Arities) (ss : List Stmt) : HeedsAll [] own ss :=
  heeds_of_unknown own ss fun _ _ => rfl

mutual

theorem mem_declared (known : Arities) : ∀ (s : Stmt) (header : Name × Nat),
    header ∈ s.declared known → header ∈ known ∨ ∃ d ∈ s.definitions, d.name = header.1
  | .define pos name namePos params body, header, member => by
    rcases mem_declaredBy _ body header member with before | ⟨d, inside, named⟩
    · rcases List.mem_cons.mp before with rfl | earlier
      · exact .inr ⟨⟨name, params, pos, namePos⟩, List.mem_cons_self, rfl⟩
      · exact .inl earlier
    · exact .inr ⟨d, List.mem_cons_of_mem _ inside, named⟩
  | .loop _ _ body, header, member => mem_declaredBy known body header member
  | .test _ _ _ _ body, header, member => mem_declaredBy known body header member
  | .make .., _, member | .loopCall .., _, member | .pen .., _, member | .move .., _, member
  | .turn .., _, member | .home _, _, member | .setXY .., _, member | .setHeading .., _, member
  | .call .., _, member | .stop _, _, member | .output .., _, member => .inl member

theorem mem_declaredBy (known : Arities) : ∀ (ss : List Stmt) (header : Name × Nat),
    header ∈ declaredBy known ss → header ∈ known ∨ ∃ d ∈ definitionsOf ss, d.name = header.1
  | [], _, member => .inl member
  | s :: rest, header, member => by
    rcases mem_declaredBy _ rest header member with before | ⟨d, inside, named⟩
    · rcases mem_declared known s header before with earlier | ⟨d, inside, named⟩
      · exact .inl earlier
      · exact .inr ⟨d, List.mem_append_left _ inside, named⟩
    · exact .inr ⟨d, List.mem_append_right _ inside, named⟩

end

theorem lookup_of_undefined {ss : List Stmt} {name : Name}
    (undefined : ∀ d ∈ definitionsOf ss, d.name ≠ name) :
    (declaredBy [] ss).lookup name = none := by
  refine List.lookup_eq_none_iff.mpr fun header member => ?_
  rcases mem_declaredBy [] ss header member with before | ⟨d, inside, named⟩
  · exact absurd before List.not_mem_nil
  · have differs := undefined d inside
    rw [named] at differs
    simpa using Ne.symm differs

namespace Parse

theorem statement_opens {n : Nat} {c next : Cursor} {s : Stmt}
    (read : statement n c = .ok s next) : opensStatement c.kind = true := by
  cases n with
  | zero => simp [statement, unexpected] at read
  | succ n =>
    rw [statement] at read
    split at read <;> rename_i same
    case h_17 => simp [unexpected] at read
    all_goals
      rw [Cursor.kind, same]
      rfl

theorem topLevel_of_empty (n : Nat) {c : Cursor} (ended : c.rest = []) :
    topLevel n c = ([], []) := by
  cases n with
  | zero => rfl
  | succ n => rw [topLevel, if_pos (List.isEmpty_iff.mpr ended)]

theorem ends_of_topLevel {n : Nat} {c : Cursor} {ss : List Stmt} (enough : c.rest.length < n)
    (read : topLevel n c = (ss, [])) : endsExpression (headKind c.rest) = true := by
  obtain ⟨n, rfl⟩ : ∃ k, n = k + 1 := ⟨n - 1, by omega⟩
  rw [topLevel] at read
  split at read
  · rename_i ended
    rw [List.isEmpty_iff.mp ended]
    rfl
  · split at read
    · rename_i s next found
      rw [← Cursor.kind_eq_headKind]
      exact ends_of_opensStatement (statement_opens found)
    · simp at read

/-- The statements of a text are read in a longer one, and reading goes on behind them. -/
theorem topLevel_extends {more : List Token} {known : Arities}
    (ends : endsExpression (headKind more) = true) {n k : Nat} {c longer : Cursor} {ss : List Stmt}
    (enough : c.rest.length < n) (read : topLevel n c = (ss, []))
    (ext : c.Extends more known longer) (heeds : HeedsAll known c.arities ss)
    (fuel : longer.rest.length < k) :
    ∃ last j, last.rest = more ∧ last.arities = declaredBy c.arities ss ++ known ∧
      more.length < j ∧
      topLevel k longer = (ss ++ (topLevel j last).1, (topLevel j last).2) := by
  induction n generalizing c longer ss k with
  | zero => omega
  | succ n ih =>
    rw [topLevel] at read
    split at read
    · rename_i ended
      obtain ⟨rfl, -⟩ := Prod.mk.inj read
      have rest : longer.rest = more := by
        rw [ext.rest, List.isEmpty_iff.mp ended, List.nil_append]
      exact ⟨longer, k, rest, ext.arities, rest ▸ fuel, rfl⟩
    · rename_i nonempty
      split at read
      · rename_i s next found
        obtain ⟨rfl, clean⟩ := Prod.mk.inj read
        have shorter := statement_shortens found
        obtain ⟨kept, carried⟩ := (stmt_extends known ends c.fuel).statement found
        obtain ⟨further, again, behind⟩ := carried ext ext.fuel heeds.1
        obtain ⟨k, rfl⟩ : ∃ i, k = i + 1 := ⟨k - 1, by omega⟩
        have left : further.rest.length < k := by
          have whole := ext.rest
          rw [behind.rest, List.length_append]
          rw [whole, List.length_append] at fuel
          omega
        obtain ⟨last, j, rest, arities, size, others⟩ :=
          ih (by omega) (Prod.ext rfl clean) behind (kept ▸ heeds.2) left
        refine ⟨last, j, rest, by rw [arities, kept, declaredBy], size, ?_⟩
        have going : longer.rest.isEmpty = false := by
          rw [ext.rest]
          cases rest : c.rest with
          | nil => simp [rest] at nonempty
          | cons t ts => rfl
        rw [topLevel, going, again]
        simp only [others]
        rfl
      · simp at read

end Parse

def Relabelling.moved (place : Position → Position) : Relabelling where
  token := Token.moved place
  place := place
  kind _ := rfl
  pos _ := rfl
  literal _ := rfl
  ending _ := rfl

theorem parse_append {first second : Bytes} {p q : Program} (acceptedFirst : parse first = .ok p)
    (acceptedSecond : parse second = .ok q)
    (heeds : HeedsAll (declaredBy [] p.statements) [] q.statements) :
    parse (first ++ newline :: second) =
      .ok ⟨p.statements ++ movedAll (Position.below first) q.statements,
        first ++ newline :: second⟩ := by
  obtain ⟨legalFirst, readFirst, -⟩ := parse_eq_ok_iff.mp acceptedFirst
  obtain ⟨legalSecond, readSecond, -⟩ := parse_eq_ok_iff.mp acceptedSecond
  have lexed := tokenize_append first second
  -- the second text alone, read further down
  have moved := Parse.topLevel_under (r := .moved (Position.below first))
    ((tokenize second).tokens.length + 1) (Cursor.ofLexed (tokenize second))
  rw [readSecond] at moved
  have enough : (Cursor.under (.moved (Position.below first))
      (Cursor.ofLexed (tokenize second))).rest.length < (tokenize second).tokens.length + 1 := by
    rw [Cursor.length_under]
    exact Nat.lt_succ_self _
  -- the first text is read with the tokens of the second behind it
  have wider : (Cursor.ofLexed (tokenize first)).Extends
      ((tokenize second).tokens.map (Token.moved (Position.below first))) []
      (Cursor.ofLexed (tokenize (first ++ newline :: second))) :=
    ⟨by rw [lexed]; rfl, rfl⟩
  obtain ⟨mid, j, rest, arities, size, front⟩ := Parse.topLevel_extends
    (Parse.ends_of_topLevel enough moved) (Nat.lt_succ_self _) readFirst wider (heeds_nil _ _)
    (Nat.lt_succ_self _)
  -- the second text is read behind the headers of the first
  have onward : (Cursor.under (.moved (Position.below first))
      (Cursor.ofLexed (tokenize second))).Extends [] (declaredBy [] p.statements) mid :=
    ⟨rest.trans (List.append_nil _).symm, arities.trans (List.append_nil _)⟩
  obtain ⟨last, i, ended, -, -, back⟩ := Parse.topLevel_extends rfl enough moved onward
    (heeds_moved _ _ [] q.statements heeds) (rest ▸ size)
  refine parse_eq_ok_iff.mpr ⟨?_, ?_, rfl⟩
  · rw [lexed, Lexed.join, Lexed.moved, legalFirst, legalSecond]
    rfl
  · refine front.trans ?_
    rw [back, Parse.topLevel_of_empty _ ended, List.append_nil]
    rfl

theorem parse_concatenated {first second : Bytes} {p q : Program}
    (acceptedFirst : parse first = .ok p) (acceptedSecond : parse second = .ok q)
    (heeds : HeedsAll (declaredBy [] p.statements) [] q.statements) :
    ∃ r, parse (first ++ newline :: second) = .ok r ∧
      unplacedAll r.statements = unplacedAll p.statements ++ unplacedAll q.statements :=
  ⟨_, parse_append acceptedFirst acceptedSecond heeds, by
    rw [unplacedAll, movedAll_append, movedAll_moved]
    rfl⟩

/-- A text that calls no procedure which the first text defines, not even within its blocks, may be
    put behind it. The program of the whole is then the one followed by the other, of which every
    place is moved by the first text and the newline. -/
theorem parse_of_unrelated_texts {first second : Bytes} {p q : Program}
    (acceptedFirst : parse first = .ok p) (acceptedSecond : parse second = .ok q)
    (unrelated : ∀ d ∈ definitionsOf p.statements, d.name ∉ calledBy q.statements) :
    parse (first ++ newline :: second) =
      .ok ⟨p.statements ++ movedAll (Position.below first) q.statements,
        first ++ newline :: second⟩ := by
  refine parse_append acceptedFirst acceptedSecond (heeds_of_unknown [] q.statements ?_)
  intro name called
  refine lookup_of_undefined fun d inside named => ?_
  exact unrelated d inside (named ▸ called)

def greedyCall : Program where
  statements := [.define ⟨0, 1, 1⟩ [102] ⟨3, 1, 4⟩ [[120]] [],
    .call ⟨12, 1, 13⟩ [103]
      [.binary .plus (.param ⟨14, 1, 15⟩ [120]) (.call ⟨19, 1, 20⟩ [104] [])]]
  source := utf8 "to f :x end g :x + h"

def nextCall : Program where
  statements := [.call ⟨0, 1, 1⟩ [104] [.negate ⟨2, 1, 3⟩ (.param ⟨3, 1, 4⟩ [120])]]
  source := utf8 "h -:x"

theorem parse_of_unrelated_texts_of_greedy_call :
    parse (utf8 "to f :x end g :x + h") = .ok greedyCall ∧ parse (utf8 "h -:x") = .ok nextCall ∧
      (∀ d ∈ definitionsOf greedyCall.statements, d.name ∉ calledBy nextCall.statements) ∧
      parse (utf8 "to f :x end g :x + h" ++ newline :: utf8 "h -:x") =
        .ok ⟨greedyCall.statements ++
          [.call ⟨21, 2, 1⟩ [104] [.negate ⟨23, 2, 3⟩ (.param ⟨24, 2, 4⟩ [120])]],
          utf8 "to f :x end g :x + h" ++ newline :: utf8 "h -:x"⟩ := by
  have acceptedFirst : parse (utf8 "to f :x end g :x + h") = .ok greedyCall := by decide +kernel
  have acceptedSecond : parse (utf8 "h -:x") = .ok nextCall := by decide +kernel
  have unrelated :
      ∀ d ∈ definitionsOf greedyCall.statements, d.name ∉ calledBy nextCall.statements := by
    intro d inside
    obtain rfl := List.mem_singleton.mp inside
    decide
  exact ⟨acceptedFirst, acceptedSecond, unrelated,
    parse_of_unrelated_texts acceptedFirst acceptedSecond unrelated⟩

end TurtleLogo
