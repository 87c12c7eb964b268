import Mathlib.Data.List.Forall2
import TurtleLogo.Proofs.Program.Lexemes
import TurtleLogo.Proofs.Scan.Words

/-!
A printer for programs. It puts every operand in brackets and writes the lexemes of the result
on one line, with a space between neighbours unless a bracket or a sign makes it needless. Number
literals are a parameter: any decimal that reads back as the value will do.

What is printed is cut into the lexemes again, whatever program they come from.
-/
namespace TurtleLogo
open Text

abbrev Arities := List (Name × Nat)

mutual

/-- The headers read after a statement. A header counts from its own body on. -/
def Stmt.declared (known : Arities) : Stmt → Arities
  | .define _ name _ params body => declaredBy ((name, params.length) :: known) body
  | .loop _ _ body => declaredBy known body
  | .test _ _ _ _ body => declaredBy known body
  | _ => known

def declaredBy (known : Arities) : List Stmt → Arities
  | [] => known
  | s :: rest => declaredBy (s.declared known) rest

end

mutual

def Expr.wrapped : Expr → Expr
  | .number pos value => .number pos value
  | .param pos name => .param pos name
  | .var pos name => .var pos name
  | .negate pos operand => .negate pos (.group .nowhere operand.wrapped)
  | .group pos inside => .group pos inside.wrapped
  | .random pos limit => .random pos (.group .nowhere limit.wrapped)
  | .binary op left right =>
    .binary op (.group .nowhere left.wrapped) (.group .nowhere right.wrapped)
  | .call pos name args => .call pos name (wrappedArgs args)

def wrappedArgs : List Expr → List Expr
  | [] => []
  | e :: rest => .group .nowhere e.wrapped :: wrappedArgs rest

end

def Expr.bracketed (e : Expr) : Expr := .group .nowhere e.wrapped

mutual

def Stmt.wrapped : Stmt → Stmt
  | .define pos name namePos params body => .define pos name namePos params (wrappedAll body)
  | .make pos name value => .make pos name value.bracketed
  | .loop pos count body => .loop pos count.bracketed (wrappedAll body)
  | .loopCall pos count target => .loopCall pos count.bracketed target
  | .pen pos down => .pen pos down
  | .move pos forward distance => .move pos forward distance.bracketed
  | .turn pos left angle => .turn pos left angle.bracketed
  | .home pos => .home pos
  | .setXY pos x y => .setXY pos x.bracketed y.bracketed
  | .setHeading pos angle => .setHeading pos angle.bracketed
  | .call pos name args => .call pos name (wrappedArgs args)
  | .test pos left op right body => .test pos left.bracketed op right.bracketed (wrappedAll body)
  | .stop pos => .stop pos
  | .output pos value => .output pos value.bracketed

def wrappedAll : List Stmt → List Stmt
  | [] => []
  | s :: rest => s.wrapped :: wrappedAll rest

end

mutual

def Expr.stripped : Expr → Expr
  | .number _ value => .number .nowhere value
  | .param _ name => .param .nowhere name
  | .var _ name => .var .nowhere name
  | .negate _ operand => .negate .nowhere operand.stripped
  | .group _ inside => inside.stripped
  | .random _ limit => .random .nowhere limit.stripped
  | .binary op left right => .binary op left.stripped right.stripped
  | .call _ name args => .call .nowhere name (strippedArgs args)

def strippedArgs : List Expr → List Expr
  | [] => []
  | e :: rest => e.stripped :: strippedArgs rest

end

mutual

def Stmt.stripped : Stmt → Stmt
  | .define _ name _ params body => .define .nowhere name .nowhere params (strippedAll body)
  | .make _ name value => .make .nowhere name value.stripped
  | .loop _ count body => .loop .nowhere count.stripped (strippedAll body)
  | .loopCall _ count target => .loopCall .nowhere count.stripped target
  | .pen _ down => .pen .nowhere down
  | .move _ forward distance => .move .nowhere forward distance.stripped
  | .turn _ left angle => .turn .nowhere left angle.stripped
  | .home _ => .home .nowhere
  | .setXY _ x y => .setXY .nowhere x.stripped y.stripped
  | .setHeading _ angle => .setHeading .nowhere angle.stripped
  | .call _ name args => .call .nowhere name (strippedArgs args)
  | .test _ left op right body =>
    .test .nowhere left.stripped op right.stripped (strippedAll body)
  | .stop _ => .stop .nowhere
  | .output _ value => .output .nowhere value.stripped

def strippedAll : List Stmt → List Stmt
  | [] => []
  | s :: rest => s.stripped :: strippedAll rest

end

def Lexeme.printed (literal : Float → Bytes) (x : Lexeme) : Bytes :=
  match x.spelling with
  | .word => (utf8 x.kind.name).map lowered
  | .text text => text
  | .sigiled name => (if x.kind == .varName then doubleQuote else byte ':') :: name
  | .value number => literal number

/-- No space stands behind an opening bracket and a sign. A sign introduces its node and so has
    a place, which an operator between two operands has not. -/
def Lexeme.clings (x : Lexeme) : Bool :=
  x.kind == .leftParen || (x.kind == .minus && x.pos.isSome)

def gap (x y : Lexeme) : Bytes := if x.clings || y.kind == .rightParen then [] else [space]

def printedLexemes (literal : Float → Bytes) : List Lexeme → Bytes
  | [] => []
  | [x] => x.printed literal
  | x :: y :: rest => x.printed literal ++ (gap x y ++ printedLexemes literal (y :: rest))

def printed (literal : Float → Bytes) (ss : List Stmt) : Bytes :=
  printedLexemes literal (lexemesOf (wrappedAll ss))

def IsProcedureName (name : Name) : Prop := Scan.isName name = true ∧ name ∉ keywords

/-- A call of a procedure whose header is known has as many arguments as the header parameters. -/
def CallFits (known : Arities) (name : Name) (arguments : Nat) : Prop :=
  ∀ arity, known.lookup name = some arity → arguments = arity

mutual

def Expr.Writable (literal : Float → Bytes) (known : Arities) : Expr → Prop
  | .number _ value =>
    Scan.isDecimal (literal value) = true ∧ Number.ofLiteral? (literal value) = some value
  | .param _ name => Scan.isName name = true
  | .var _ name => Scan.isName name = true
  | .negate _ operand => operand.Writable literal known
  | .group _ inside => inside.Writable literal known
  | .random _ limit => limit.Writable literal known
  | .binary _ left right => left.Writable literal known ∧ right.Writable literal known
  | .call _ name args =>
    IsProcedureName name ∧ CallFits known name args.length ∧ WritableArgs literal known args

def WritableArgs (literal : Float → Bytes) (known : Arities) : List Expr → Prop
  | [] => True
  | e :: rest => e.Writable literal known ∧ WritableArgs literal known rest

end

mutual

def Stmt.Writable (literal : Float → Bytes) (known : Arities) : Stmt → Prop
  | .define _ name _ params body =>
    IsProcedureName name ∧ (∀ param ∈ params, Scan.isName param = true) ∧
      WritableAll literal ((name, params.length) :: known) body
  | .make _ name value => Scan.isName name = true ∧ value.Writable literal known
  | .loop _ count body => count.Writable literal known ∧ WritableAll literal known body
  | .loopCall _ count target => count.Writable literal known ∧ IsProcedureName target
  | .pen .. => True
  | .move _ _ distance => distance.Writable literal known
  | .turn _ _ angle => angle.Writable literal known
  | .home _ => True
  | .setXY _ x y => x.Writable literal known ∧ y.Writable literal known
  | .setHeading _ angle => angle.Writable literal known
  | .call _ name args =>
    IsProcedureName name ∧ CallFits known name args.length ∧ WritableArgs literal known args
  | .test _ left _ right body =>
    left.Writable literal known ∧ right.Writable literal known ∧ WritableAll literal known body
  | .stop _ => True
  | .output _ value => value.Writable literal known

def WritableAll (literal : Float → Bytes) (known : Arities) : List Stmt → Prop
  | [] => True
  | s :: rest => s.Writable literal known ∧ WritableAll literal (s.declared known) rest

end

def Lexeme.Printable (literal : Float → Bytes) (x : Lexeme) : Prop :=
  match x.spelling with
  | .word => x.kind.isIn Category.keyword = true ∨ x.kind ∈ Scan.symbols.map Prod.fst
  | .text text => x.kind = .identifier ∧ Scan.isName text = true ∧ text ∉ keywords
  | .sigiled name => (x.kind = .varName ∨ x.kind = .paramName) ∧ Scan.isName name = true
  | .value number =>
    x.kind = .number ∧ Scan.isDecimal (literal number) = true ∧
      Number.ofLiteral? (literal number) = some number

theorem mem_keywords {name : Bytes} :
    name ∈ keywords ↔ name ∈ TokenKind.keywordTable.flatMap fun entry => entry.2.map utf8 := by
  rw [keywords, sorted, List.mem_mergeSort]

theorem wordKind_of_not_keyword {name : Bytes} (free : name ∉ keywords) :
    Scan.wordKind name = .identifier := by
  unfold Scan.wordKind
  split
  · rename_i entry found
    have spelled := List.find?_some found
    have listed := List.mem_of_find?_eq_some found
    refine absurd ?_ free
    rw [mem_keywords]
    exact List.mem_flatMap.mpr ⟨entry, listed, by simpa using spelled⟩
  · rfl

theorem keyword_spelling (k : TokenKind) (keyword : k.isIn Category.keyword = true) :
    Scan.isName ((utf8 k.name).map lowered) = true ∧
      Scan.wordKind ((utf8 k.name).map lowered) = k := by
  revert keyword
  cases k <;> decide

theorem symbol_spelling :
    ∀ entry ∈ Scan.symbols, (utf8 entry.1.name).map lowered = utf8 entry.2 := by
  decide

/-- A printed lexeme is the longest match where it stands. Symbols need nothing to end them. -/
theorem longestMatch_printed {literal : Float → Bytes} {x : Lexeme} {rest : Bytes}
    (fine : x.Printable literal)
    (stop : x.kind ∈ Scan.symbols.map Prod.fst ∨ Scan.Boundary rest) :
    Scan.longestMatch (x.printed literal ++ rest) = ⟨x.kind, (x.printed literal).length⟩ := by
  obtain ⟨kind, spelling, pos⟩ := x
  cases spelling <;> simp only [Lexeme.Printable, Lexeme.printed] at fine stop ⊢
  case word =>
    by_cases symbol : kind ∈ Scan.symbols.map Prod.fst
    · obtain ⟨entry, listed, rfl⟩ := List.mem_map.mp symbol
      rw [symbol_spelling entry listed]
      exact Scan.longestMatch_symbol entry listed
    · have spelled := keyword_spelling kind (fine.resolve_right symbol)
      rw [Scan.longestMatch_name spelled.1 (stop.resolve_left symbol), spelled.2]
  case text text =>
    obtain ⟨rfl, named, free⟩ := fine
    rw [Scan.longestMatch_name named (stop.resolve_left (by decide)), wordKind_of_not_keyword free]
  case sigiled name =>
    obtain ⟨rfl | rfl, named⟩ := fine
    · exact Scan.longestMatch_sigil (.head _) named (stop.resolve_left (by decide))
    · exact Scan.longestMatch_sigil (.tail _ (.head _)) named (stop.resolve_left (by decide))
  case value number =>
    obtain ⟨rfl, decimal, -⟩ := fine
    exact Scan.longestMatch_number decimal (stop.resolve_left (by decide))

theorem printed_first {literal : Float → Bytes} {x : Lexeme} (fine : x.Printable literal) :
    (x.printed literal).head?.map Scan.isSpace = some false := by
  obtain ⟨kind, spelling, pos⟩ := x
  cases spelling <;> simp only [Lexeme.Printable, Lexeme.printed] at fine ⊢
  case word =>
    by_cases symbol : kind ∈ Scan.symbols.map Prod.fst
    · obtain ⟨entry, listed, rfl⟩ := List.mem_map.mp symbol
      rw [symbol_spelling entry listed]
      revert entry
      decide
    · exact Scan.name_first (keyword_spelling kind (fine.resolve_right symbol)).1
  case text text => exact Scan.name_first fine.2.1
  case sigiled name =>
    split <;> rfl
  case value number => exact Scan.decimal_first fine.2.1

theorem ofPieces_printed {literal : Float → Bytes} {x : Lexeme} (fine : x.Printable literal)
    (p : Position) (text : Bytes) (rest : List Scan.Piece) :
    (Lexed.ofPieces p (⟨x.kind, text⟩ :: rest)).errors =
      (Lexed.ofPieces (p.after text) rest).errors ∧
    (Lexed.ofPieces p (⟨x.kind, text⟩ :: rest)).tokens =
      ⟨x.kind, text, p⟩ :: (Lexed.ofPieces (p.after text) rest).tokens := by
  obtain ⟨kind, spelling, pos⟩ := x
  have proper : kind ≠ .whitespace ∧ kind ≠ .comment ∧ kind ≠ .illegal := by
    cases spelling <;> simp only [Lexeme.Printable] at fine
    case word => revert fine; cases kind <;> decide
    case text => rw [fine.1]; decide
    case sigiled => rcases fine.1 with rfl | rfl <;> decide
    case value => rw [fine.1]; decide
  cases kind <;> simp_all [Lexed.ofPieces]

theorem printed_spells {literal : Float → Bytes} {x : Lexeme} (fine : x.Printable literal)
    (p : Position) : x.Spells ⟨x.kind, x.printed literal, p⟩ := by
  obtain ⟨kind, spelling, pos⟩ := x
  refine ⟨rfl, ?_⟩
  cases spelling <;> simp only [Lexeme.Printable] at fine
  case word => trivial
  case text => rfl
  case sigiled => rfl
  case value => exact fine.2.2

theorem printedLexemes_cons (literal : Float → Bytes) (x : Lexeme) (rest : List Lexeme) :
    ∃ more, printedLexemes literal (x :: rest) = x.printed literal ++ more := by
  cases rest with
  | nil => exact ⟨[], by simp [printedLexemes]⟩
  | cons y rest => exact ⟨_, rfl⟩

theorem boundary_rightParen {literal : Float → Bytes} {x : Lexeme} (fine : x.Printable literal)
    (closing : x.kind = .rightParen) (more : Bytes) :
    Scan.Boundary (x.printed literal ++ more) := by
  obtain ⟨kind, spelling, pos⟩ := x
  subst closing
  cases spelling <;> simp only [Lexeme.Printable] at fine
  case word =>
    have text : Lexeme.printed literal ⟨.rightParen, .word, pos⟩ = utf8 ")" := by
      simp only [Lexeme.printed]
      decide
    rw [text]
    rintro b ⟨⟩
    decide
  case text => exact absurd fine.1 (by decide)
  case sigiled => exact absurd fine.1 (by decide)
  case value => exact absurd fine.1 (by decide)

theorem ends_before_next {literal : Float → Bytes} {x y : Lexeme} {rest : List Lexeme}
    (fine : y.Printable literal) :
    x.kind ∈ Scan.symbols.map Prod.fst ∨
      Scan.Boundary (gap x y ++ printedLexemes literal (y :: rest)) := by
  unfold gap
  split
  · rename_i tight
    rcases (Bool.or_eq_true _ _).mp tight with clings | closing
    · left
      simp only [Lexeme.clings, Bool.or_eq_true, Bool.and_eq_true, beq_iff_eq] at clings
      rcases clings with paren | sign
      · rw [paren]; decide
      · rw [sign.1]; decide
    · right
      obtain ⟨more, text⟩ := printedLexemes_cons literal y rest
      rw [List.nil_append, text]
      exact boundary_rightParen fine (by simpa using closing) more
  · right
    rintro b ⟨⟩
    decide

theorem ofPieces_gap {literal : Float → Bytes} {x y : Lexeme} {rest : List Lexeme}
    (fine : y.Printable literal) (p : Position) :
    ∃ q, Lexed.ofPieces p (Scan.pieces (gap x y ++ printedLexemes literal (y :: rest))) =
      Lexed.ofPieces q (Scan.pieces (printedLexemes literal (y :: rest))) := by
  unfold gap
  split
  · exact ⟨p, rfl⟩
  · obtain ⟨more, text⟩ := printedLexemes_cons literal y rest
    have stop : ∀ b ∈ (printedLexemes literal (y :: rest)).head?, Scan.isSpace b = false := by
      have first := printed_first fine
      rw [text]
      cases spelled : y.printed literal with
      | nil => simp [spelled] at first
      | cons b tail => simpa [spelled] using first
    have blank : Scan.pieces ([space] ++ printedLexemes literal (y :: rest)) =
        ⟨.whitespace, [space]⟩ :: Scan.pieces (printedLexemes literal (y :: rest)) :=
      Scan.pieces_of_longestMatch (by simp) (Scan.longestMatch_space stop)
    exact ⟨p.after [space], by rw [blank, Lexed.ofPieces]⟩

theorem lexed_printedLexemes {literal : Float → Bytes} {xs : List Lexeme}
    (fine : ∀ x ∈ xs, x.Printable literal) (p : Position) :
    (Lexed.ofPieces p (Scan.pieces (printedLexemes literal xs))).errors = [] ∧
      List.Forall₂ Lexeme.Spells xs
        (Lexed.ofPieces p (Scan.pieces (printedLexemes literal xs))).tokens := by
  induction xs generalizing p with
  | nil => exact ⟨rfl, .nil⟩
  | cons x rest ih =>
    have own := fine x (by simp)
    have nonempty : x.printed literal ≠ [] := by
      intro empty
      simpa [empty] using printed_first own
    cases rest with
    | nil =>
      have atEnd : Scan.Boundary [] := by simp [Scan.Boundary]
      have cut := Scan.pieces_of_longestMatch nonempty (longestMatch_printed own (.inr atEnd))
      obtain ⟨errors, tokens⟩ := ofPieces_printed own p (x.printed literal) []
      rw [List.append_nil] at cut
      rw [printedLexemes, cut, show Scan.pieces [] = [] from rfl, errors, tokens]
      exact ⟨rfl, .cons (printed_spells own p) .nil⟩
    | cons y rest =>
      have next := fine y (by simp)
      have ends := @ends_before_next literal x y rest next
      have cut := Scan.pieces_of_longestMatch nonempty (longestMatch_printed own ends)
      obtain ⟨q, skipped⟩ := @ofPieces_gap literal x y rest next (p.after (x.printed literal))
      obtain ⟨clean, spelled⟩ := ih (fun z member => fine z (List.mem_cons_of_mem x member)) q
      obtain ⟨errors, tokens⟩ := ofPieces_printed own p (x.printed literal)
        (Scan.pieces (gap x y ++ printedLexemes literal (y :: rest)))
      rw [printedLexemes, cut, errors, tokens, skipped]
      exact ⟨clean, .cons (printed_spells own p) spelled⟩

def AllPrintable (literal : Float → Bytes) (xs : List Lexeme) : Prop :=
  ∀ x ∈ xs, x.Printable literal

section
variable {literal : Float → Bytes} {known : Arities}

namespace AllPrintable

theorem nil : AllPrintable literal [] := by simp [AllPrintable]

theorem cons {x : Lexeme} {xs : List Lexeme} (first : x.Printable literal)
    (rest : AllPrintable literal xs) : AllPrintable literal (x :: xs) :=
  List.forall_mem_cons.mpr ⟨first, rest⟩

theorem append {xs ys : List Lexeme} (front : AllPrintable literal xs)
    (back : AllPrintable literal ys) : AllPrintable literal (xs ++ ys) :=
  List.forall_mem_append.mpr ⟨front, back⟩

theorem word {k : TokenKind} {pos : Option Position} {xs : List Lexeme}
    (spelled : k.isIn Category.keyword = true ∨ k ∈ Scan.symbols.map Prod.fst)
    (rest : AllPrintable literal xs) : AllPrintable literal (⟨k, .word, pos⟩ :: xs) :=
  cons spelled rest

theorem name {name : Name} {pos : Option Position} {xs : List Lexeme}
    (named : IsProcedureName name) (rest : AllPrintable literal xs) :
    AllPrintable literal (⟨.identifier, .text name, pos⟩ :: xs) :=
  cons ⟨rfl, named⟩ rest

theorem group {e : Expr} {pos : Position} (inside : AllPrintable literal e.lexemes) :
    AllPrintable literal (Expr.group pos e).lexemes :=
  word (.inr (by decide)) (inside.append (word (.inr (by decide)) nil))

theorem params {params : List Name} (named : ∀ param ∈ params, Scan.isName param = true) :
    AllPrintable literal (params.map (⟨.paramName, .sigiled ·, none⟩)) :=
  List.forall_mem_map.mpr fun param member => ⟨.inr rfl, named param member⟩

end AllPrintable

theorem arithOp_symbol (op : ArithOp) : op.kind ∈ Scan.symbols.map Prod.fst := by
  cases op <;> decide

theorem comparison_symbol (op : Comparison) : op.kind ∈ Scan.symbols.map Prod.fst := by
  cases op <;> decide

open AllPrintable

mutual

theorem expr_printable :
    ∀ e : Expr, e.Writable literal known → AllPrintable literal e.wrapped.lexemes
  | .number _ _, fine => cons ⟨rfl, fine⟩ nil
  | .param _ _, fine => cons ⟨.inr rfl, fine⟩ nil
  | .var _ _, fine => cons ⟨.inl rfl, fine⟩ nil
  | .negate _ operand, fine => word (.inr (by decide)) (group (expr_printable operand fine))
  | .group _ inside, fine => group (expr_printable inside fine)
  | .random _ limit, fine => word (.inl (by decide)) (group (expr_printable limit fine))
  | .binary op left right, fine =>
    (group (expr_printable left fine.1)).append
      (word (.inr (arithOp_symbol op)) (group (expr_printable right fine.2)))
  | .call _ _ args, fine => name fine.1 (args_printable args fine.2.2)

theorem args_printable :
    ∀ es : List Expr, WritableArgs literal known es →
      AllPrintable literal (lexemesOfArgs (wrappedArgs es))
  | [], _ => nil
  | e :: rest, fine => (group (expr_printable e fine.1)).append (args_printable rest fine.2)

end

theorem keyword_printable {k : TokenKind} {pos : Position} {e : Expr}
    (keyword : k.isIn Category.keyword = true) (fine : e.Writable literal known) :
    AllPrintable literal (Lexeme.opening k pos :: e.bracketed.lexemes) :=
  word (.inl keyword) (group (expr_printable e fine))

theorem block_printable {xs : List Lexeme} (inside : AllPrintable literal xs) :
    AllPrintable literal (Lexeme.inner .leftBracket :: (xs ++ [Lexeme.inner .rightBracket])) :=
  word (.inr (by decide)) (inside.append (word (.inr (by decide)) nil))

end

section
open AllPrintable

mutual

theorem stmt_printable {literal : Float → Bytes} {known : Arities} :
    ∀ s : Stmt, s.Writable literal known → AllPrintable literal s.wrapped.lexemes
  | .define _ _ _ _ body, fine =>
    word (.inl (by decide)) (name fine.1 ((params fine.2.1).append
      ((stmts_printable body fine.2.2).append (word (.inl (by decide)) nil))))
  | .make _ _ value, fine =>
    word (.inl (by decide)) (cons ⟨.inl rfl, fine.1⟩ (group (expr_printable value fine.2)))
  | .loop _ _ body, fine =>
    (keyword_printable (by decide) fine.1).append (block_printable (stmts_printable body fine.2))
  | .loopCall _ _ _, fine =>
    (keyword_printable (by decide) fine.1).append (name fine.2 nil)
  | .pen _ down, _ => word (.inl (by cases down <;> decide)) nil
  | .move _ forward _, fine => keyword_printable (by cases forward <;> decide) fine
  | .turn _ left _, fine => keyword_printable (by cases left <;> decide) fine
  | .home _, _ => word (.inl (by decide)) nil
  | .setXY _ _ y, fine =>
    (keyword_printable (by decide) fine.1).append (group (expr_printable y fine.2))
  | .setHeading _ _, fine => keyword_printable (by decide) fine
  | .call _ _ args, fine => name fine.1 (args_printable args fine.2.2)
  | .test _ _ op right body, fine =>
    (keyword_printable (by decide) fine.1).append
      (word (.inr (comparison_symbol op)) ((group (expr_printable right fine.2.1)).append
        (block_printable (stmts_printable body fine.2.2))))
  | .stop _, _ => word (.inl (by decide)) nil
  | .output _ _, fine => keyword_printable (by decide) fine

theorem stmts_printable {literal : Float → Bytes} {known : Arities} :
    ∀ ss : List Stmt, WritableAll literal known ss →
      AllPrintable literal (lexemesOf (wrappedAll ss))
  | [], _ => nil
  | s :: rest, fine => (stmt_printable s fine.1).append (stmts_printable rest fine.2)

end
end

end TurtleLogo
