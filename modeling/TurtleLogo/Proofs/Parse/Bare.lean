import TurtleLogo.Proofs.Parse.Faithful
import TurtleLogo.Proofs.Parse.Relabelled
import TurtleLogo.Proofs.Scan.Solid

/-!
Tokens without what parsing does not look at. A token is bare when it has lost its place and, unless
the program keeps it, its spelling. So two texts with the same bare tokens have the same program up
to places, or the same errors.
-/
namespace TurtleLogo
open Text

def Token.bare (t : Token) : Token :=
  ⟨t.kind, if t.kind.isSpelled then t.literal else [], .nowhere⟩

theorem Token.bare_literal {t : Token} (spelled : t.kind.isSpelled = true) :
    t.bare.literal = t.literal :=
  if_pos spelled

def Scan.Piece.token (p : Scan.Piece) : Token := Token.bare ⟨p.kind, p.text, .nowhere⟩

theorem bare_tokens {text : Bytes} (legal : Scan.Legal text) :
    (tokenize text).tokens.map Token.bare = (Scan.solid text).map Scan.Piece.token := by
  rw [← tokenize_tokens legal, List.map_map]
  rfl

def Relabelling.bare : Relabelling where
  token := Token.bare
  place _ := .nowhere
  kind _ := rfl
  pos _ := rfl
  literal := Token.bare_literal
  ending _ := rfl

def ParseError.bare (e : ParseError) : ParseError := ⟨e.token.bare, e.reason⟩

def Cursor.bare (c : Cursor) : Cursor := ⟨c.rest.map Token.bare, .nowhere, c.opened, c.arities⟩

theorem Parse.topLevel_bare (n : Nat) (c : Cursor) :
    topLevel n c.bare =
      (unplacedAll (topLevel n c).1, (topLevel n c).2.map ParseError.bare) :=
  topLevel_under (r := .bare) n c

theorem parse_eq_ok_iff {source : Bytes} {p : Program} :
    parse source = .ok p ↔ (tokenize source).errors = [] ∧
      Parse.topLevel ((tokenize source).tokens.length + 1) (Cursor.ofLexed (tokenize source)) =
        (p.statements, []) ∧ p.source = source := by
  simp only [parse]
  generalize Parse.topLevel ((tokenize source).tokens.length + 1)
    (Cursor.ofLexed (tokenize source)) = read
  obtain ⟨statements, errors⟩ := read
  obtain ⟨kept, text⟩ := p
  by_cases legal : (tokenize source).errors = []
  · by_cases clean : errors = []
    · simp [legal, clean, eq_comm]
    · simp [legal, clean]
  · simp [legal]

theorem tokens_fit {source : Bytes} {p : Program} (accepted : parse source = .ok p) :
    List.Forall₂ Lexeme.Fits (lexemesOf p.statements) (tokenize source).tokens :=
  Parse.topLevel_reads (Nat.lt_succ_self _) (parse_eq_ok_iff.mp accepted).2.1

/-- A token of the text is as the program has it. -/
def Lexeme.StandsIn (x : Lexeme) (source : Bytes) : Prop :=
  ∃ t ∈ (tokenize source).tokens, x.Fits t

theorem lexemes_stand {source : Bytes} {p : Program} (accepted : parse source = .ok p) :
    ∀ x ∈ lexemesOf p.statements, x.StandsIn source := by
  have fits := tokens_fit accepted
  unfold Lexeme.StandsIn
  generalize lexemesOf p.statements = xs at fits ⊢
  generalize (tokenize source).tokens = ts at fits ⊢
  induction fits with
  | nil => exact fun x member => absurd member List.not_mem_nil
  | cons first _ ih =>
    intro x member
    rcases List.mem_cons.mp member with rfl | later
    · exact ⟨_, List.mem_cons_self, first⟩
    · obtain ⟨t, inside, fits⟩ := ih x later
      exact ⟨t, List.mem_cons_of_mem _ inside, fits⟩

theorem places_increasing {source : Bytes} {p : Program} (accepted : parse source = .ok p) :
    (placed (lexemesOf p.statements)).Pairwise (·.offset < ·.offset) := by
  refine List.Pairwise.sublist (placed_of_fits (tokens_fit accepted)) ?_
  rw [List.pairwise_map]
  exact tokens_increasing source

def bareStart (source : Bytes) : Cursor := (Cursor.ofLexed (tokenize source)).bare

theorem topLevel_bareStart {source : Bytes} {p : Program} (accepted : parse source = .ok p) :
    Parse.topLevel ((tokenize source).tokens.length + 1) (bareStart source) =
      (unplacedAll p.statements, []) := by
  rw [bareStart, Parse.topLevel_bare, (parse_eq_ok_iff.mp accepted).2.1]
  rfl

theorem parse_of_topLevel {source : Bytes} {ss : List Stmt} (legal : Scan.Legal source)
    (read : Parse.topLevel ((tokenize source).tokens.length + 1) (bareStart source) = (ss, [])) :
    ∃ p, parse source = .ok p ∧ unplacedAll p.statements = ss := by
  rw [bareStart, Parse.topLevel_bare] at read
  obtain ⟨statements, errors⟩ := Prod.mk.inj read
  exact ⟨⟨_, source⟩, parse_eq_ok_iff.mpr ⟨(tokenize_errors _).mpr legal,
    Prod.ext rfl (List.map_eq_nil_iff.mp errors), rfl⟩, statements⟩

/-- Two texts with the same bare tokens, all of them legal, have the same program up to places. -/
theorem parse_of_bare_tokens {source other : Bytes} {p : Program}
    (tokens : (tokenize other).tokens.map Token.bare = (tokenize source).tokens.map Token.bare)
    (legal : Scan.Legal other) (accepted : parse source = .ok p) :
    ∃ q, parse other = .ok q ∧ unplacedAll q.statements = unplacedAll p.statements := by
  have starts : bareStart other = bareStart source := by
    simp [bareStart, Cursor.bare, Cursor.ofLexed, tokens]
  have lengths := congrArg List.length tokens
  rw [List.length_map, List.length_map] at lengths
  refine parse_of_topLevel legal ?_
  rw [lengths, starts, topLevel_bareStart accepted]

end TurtleLogo
