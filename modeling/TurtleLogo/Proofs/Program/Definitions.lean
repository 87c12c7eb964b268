import TurtleLogo.Lint
import TurtleLogo.Proofs.Parse.Nesting
import TurtleLogo.Proofs.Program.Nodes

/-!
Where definitions and assignments stand. Every definition begins with a word of its own and its name
is behind that word, so the definitions of an accepted text are its words that begin one, in the
order in which they stand there. Those that lie directly in some statements, and the assignments
that do, are in that order too.
-/
namespace TurtleLogo

/-- The list has the first entry of each name, in order. -/
structure FirstOfEach {α : Type} (name : α → Name) (entries firsts : List α) : Prop where
  sublist : firsts.Sublist entries
  distinct : (firsts.map name).Nodup
  first : ∀ a ∈ firsts, entries.find? (name · == name a) = some a
  covers : ∀ a ∈ entries, ∃ b ∈ firsts, name b = name a

def Lexeme.isHeader (x : Lexeme) : Bool := x.kind == .define

def Definition.header (q : Definition) : Lexeme := .opening .define q.pos

def Stmt.block : Stmt → List Stmt
  | .loop _ _ body | .test _ _ _ _ body => body
  | _ => []

def Node.stmt? : Node → Option Stmt
  | .stmt s => some s
  | .expr _ => none

def statementsIn (ss : List Stmt) : List Stmt := (nodesOf ss).filterMap Node.stmt?

mutual

theorem expr_no_statements : ∀ e : Expr, e.nodes.filterMap Node.stmt? = []
  | .number .. | .param .. | .var .. => rfl
  | .negate _ e | .group _ e | .random _ e => expr_no_statements e
  | .binary _ left right =>
    List.filterMap_append.trans
      (List.append_eq_nil_iff.mpr ⟨expr_no_statements left, expr_no_statements right⟩)
  | .call _ _ args => arguments_no_statements args

theorem arguments_no_statements : ∀ es : List Expr, (argumentNodes es).filterMap Node.stmt? = []
  | [] => rfl
  | e :: rest =>
    List.filterMap_append.trans
      (List.append_eq_nil_iff.mpr ⟨expr_no_statements e, arguments_no_statements rest⟩)

end

theorem inner_statements (s : Stmt) : s.inner.filterMap Node.stmt? = statementsIn s.block := by
  cases s with
  | define | pen | home | stop => rfl
  | make _ _ e | loopCall _ e _ | move _ _ e | turn _ _ e | setHeading _ e | output _ e =>
    exact expr_no_statements e
  | call _ _ args => exact arguments_no_statements args
  | setXY _ x y =>
    rw [Stmt.inner, List.filterMap_append, expr_no_statements, expr_no_statements]
    rfl
  | loop _ count body =>
    rw [Stmt.inner, List.filterMap_append, expr_no_statements]
    rfl
  | test _ left _ right body =>
    rw [Stmt.inner, List.filterMap_append, List.filterMap_append, expr_no_statements,
      expr_no_statements]
    rfl

theorem statementsIn_cons (s : Stmt) (rest : List Stmt) :
    statementsIn (s :: rest) = s :: (statementsIn s.block ++ statementsIn rest) := by
  have own : Node.stmt? (.stmt s) = some s := rfl
  rw [statementsIn, nodesOf, List.filterMap_cons_some own, List.filterMap_append, inner_statements]
  rfl

theorem no_headers {xs : List Lexeme} (neutral : ∀ x ∈ xs, x.kind.nesting = 0) :
    xs.filter Lexeme.isHeader = [] := by
  refine List.filter_eq_nil_iff.mpr fun x member header => ?_
  have level := neutral x member
  rw [eq_of_beq header] at level
  contradiction

theorem block_headers {body : List Stmt} {xs : List Lexeme} (close : TokenKind)
    (other : close ≠ .define) (inside : (lexemesOf body).filter Lexeme.isHeader = xs) :
    (lexemesOf body ++ [Lexeme.inner close]).filter Lexeme.isHeader = xs := by
  have closes : (Lexeme.inner close).isHeader = false := beq_false_of_ne other
  rw [List.filter_append, inside, List.filter_singleton, closes]
  exact List.append_nil _

mutual

theorem stmt_headers : ∀ s : Stmt,
    s.lexemes.filter Lexeme.isHeader = s.definitions.map Definition.header
  | .define pos name namePos params body => by
    have plain : (params.map (⟨.paramName, .sigiled ·, none⟩)).filter Lexeme.isHeader = [] :=
      no_headers (by simp [TokenKind.nesting])
    have block := block_headers .endDefine (by decide) (headers_stand body)
    rw [Stmt.lexemes, List.filter_cons_of_pos rfl, List.filter_cons_of_neg Bool.false_ne_true,
      List.filter_append, plain, block]
    rfl
  | .loop pos count body => by
    have block := block_headers .rightBracket (by decide) (headers_stand body)
    rw [Stmt.lexemes, List.filter_cons_of_neg Bool.false_ne_true, List.filter_append,
      no_headers (expr_neutral count), List.filter_cons_of_neg Bool.false_ne_true, block]
    rfl
  | .test pos left op right body => by
    have block := block_headers .rightBracket (by decide) (headers_stand body)
    have compares : ¬(Lexeme.inner op.kind).isHeader = true := by cases op <;> decide
    rw [Stmt.lexemes, List.filter_cons_of_neg Bool.false_ne_true, List.filter_append,
      no_headers (expr_neutral left), List.filter_cons_of_neg compares, List.filter_append,
      no_headers (expr_neutral right), List.filter_cons_of_neg Bool.false_ne_true, block]
    rfl
  | .make .. | .loopCall .. | .pen .. | .move .. | .turn .. | .home _ | .setXY .. | .setHeading ..
  | .call .. | .stop _ | .output .. => no_headers (stmt_neutral _ rfl)

/-- The words that begin definitions are those of the definitions, in order. -/
theorem headers_stand : ∀ ss : List Stmt,
    (lexemesOf ss).filter Lexeme.isHeader = (definitionsOf ss).map Definition.header
  | [] => rfl
  | s :: rest => by
    rw [lexemesOf, List.filter_append, stmt_headers s, headers_stand rest, definitionsOf,
      List.map_append]

end

mutual

theorem stmt_names_stand : ∀ (s : Stmt), ∀ q ∈ s.definitions,
    (⟨.identifier, .text q.name, some q.namePos⟩ : Lexeme) ∈ s.lexemes
  | .define pos name namePos params body, q, member => by
    rcases List.mem_cons.mp member with rfl | inside
    · simp [Stmt.lexemes]
    · simp [Stmt.lexemes, names_stand body q inside]
  | .loop pos count body, q, member => by
    simp [Stmt.lexemes, names_stand body q member]
  | .test pos left op right body, q, member => by
    simp [Stmt.lexemes, names_stand body q member]
  | .make .., _, member | .loopCall .., _, member | .pen .., _, member | .move .., _, member
  | .turn .., _, member | .home .., _, member | .setXY .., _, member | .setHeading .., _, member
  | .call .., _, member | .stop .., _, member | .output .., _, member =>
    absurd member List.not_mem_nil

theorem names_stand : ∀ (ss : List Stmt), ∀ q ∈ definitionsOf ss,
    (⟨.identifier, .text q.name, some q.namePos⟩ : Lexeme) ∈ lexemesOf ss
  | [], _, member => absurd member List.not_mem_nil
  | s :: rest, q, member => by
    rcases List.mem_append.mp member with first | later
    · exact List.mem_append_left _ (stmt_names_stand s q first)
    · exact List.mem_append_right _ (names_stand rest q later)

end

theorem block_places {ps : List Position} {body : List Stmt} (close : TokenKind)
    (inside : ps.Sublist (placed (lexemesOf body))) :
    ps.Sublist (placed (lexemesOf body ++ [.inner close])) := by
  rw [placed_append]
  exact inside.trans (List.sublist_append_left _ _)

mutual

theorem stmt_name_places : ∀ (s : Stmt), ∀ q ∈ s.definitions,
    [q.pos, q.namePos].Sublist (placed s.lexemes)
  | .define pos name namePos params body, q, member => by
    rcases List.mem_cons.mp member with rfl | inside
    · exact .cons_cons _ (.cons_cons _ (List.nil_sublist _))
    · have block := block_places .endDefine (name_places body q inside)
      rw [Stmt.lexemes, placed_opening]
      refine .cons _ (.cons _ ?_)
      rw [← placed, placed_append]
      exact block.trans (List.sublist_append_right _ _)
  | .loop pos count body, q, member => by
    have block := block_places .rightBracket (name_places body q member)
    rw [Stmt.lexemes, placed_opening, placed_append, placed_inner]
    exact .cons _ (block.trans (List.sublist_append_right _ _))
  | .test pos left op right body, q, member => by
    have block := block_places .rightBracket (name_places body q member)
    rw [Stmt.lexemes, placed_opening, placed_append, placed_inner, placed_append, placed_inner]
    exact .cons _ ((block.trans (List.sublist_append_right _ _)).trans
      (List.sublist_append_right _ _))
  | .make .., _, member | .loopCall .., _, member | .pen .., _, member | .move .., _, member
  | .turn .., _, member | .home _, _, member | .setXY .., _, member | .setHeading .., _, member
  | .call .., _, member | .stop _, _, member | .output .., _, member =>
    absurd member List.not_mem_nil

/-- The name of a definition stands behind the word that begins it. -/
theorem name_places : ∀ (ss : List Stmt), ∀ q ∈ definitionsOf ss,
    [q.pos, q.namePos].Sublist (placed (lexemesOf ss))
  | [], _, member => absurd member List.not_mem_nil
  | s :: rest, q, member => by
    rw [lexemesOf, placed_append]
    rcases List.mem_append.mp member with first | later
    · exact (stmt_name_places s q first).trans (List.sublist_append_left _ _)
    · exact (name_places rest q later).trans (List.sublist_append_right _ _)

end

mutual

theorem stmt_statement_places : ∀ s : Stmt,
    (s.pos :: (statementsIn s.block).map Stmt.pos).Sublist (placed s.lexemes)
  | .loop pos count body => by
    have block := block_places .rightBracket (statement_places body)
    rw [Stmt.lexemes, placed_opening, placed_append, placed_inner]
    exact .cons_cons _ (block.trans (List.sublist_append_right _ _))
  | .test pos left op right body => by
    have block := block_places .rightBracket (statement_places body)
    rw [Stmt.lexemes, placed_opening, placed_append, placed_inner, placed_append, placed_inner]
    exact .cons_cons _ ((block.trans (List.sublist_append_right _ _)).trans
      (List.sublist_append_right _ _))
  | .define .. | .make .. | .loopCall .. | .pen .. | .move .. | .turn .. | .home _ | .setXY ..
  | .setHeading .. | .call .. | .stop _ | .output .. =>
    .cons_cons _ (List.nil_sublist _)

theorem statement_places : ∀ ss : List Stmt,
    ((statementsIn ss).map Stmt.pos).Sublist (placed (lexemesOf ss))
  | [] => .slnil
  | s :: rest => by
    rw [statementsIn_cons, lexemesOf, placed_append, List.map_cons, List.map_append,
      ← List.cons_append]
    exact (stmt_statement_places s).append (statement_places rest)

end

section
variable {source : Text.Bytes} {p : Program} (accepted : parse source = .ok p)
include accepted

theorem definitions_are_headers :
    (definitionsOf p.statements).map Definition.pos =
      ((tokenize source).tokens.filter fun t => t.kind == .define).map Token.pos := by
  have alike : ∀ (x : Lexeme) (t : Token), x.Fits t →
      (x.isHeader = true ↔ (t.kind == .define) = true) := by
    intro x t fits
    rw [Lexeme.isHeader, fits.1.1]
  have fits := List.rel_filter (fun x t => alike x t) (tokens_fit accepted)
  rw [headers_stand, List.forall₂_map_left_iff] at fits
  rw [← List.forall₂_eq_eq_eq, List.forall₂_map_left_iff, List.forall₂_map_right_iff]
  exact fits.imp fun q t header => (header.2 q.pos rfl).symm

theorem definitions_increasing :
    (definitionsOf p.statements).Pairwise (·.pos.offset < ·.pos.offset) := by
  rw [← List.pairwise_map (f := Definition.pos) (R := fun a b => a.offset < b.offset),
    definitions_are_headers accepted, List.pairwise_map]
  exact (tokens_increasing source).sublist List.filter_sublist

theorem name_behind_header {q : Definition} (defined : q ∈ definitionsOf p.statements) :
    q.pos.offset < q.namePos.offset :=
  List.rel_of_pairwise_cons ((places_increasing accepted).sublist (name_places _ q defined))
    List.mem_cons_self

theorem statements_increasing :
    (statementsIn p.statements).Pairwise (·.pos.offset < ·.pos.offset) :=
  List.pairwise_map (f := Stmt.pos) |>.mp
    ((places_increasing accepted).sublist (statement_places p.statements))

end
end TurtleLogo
