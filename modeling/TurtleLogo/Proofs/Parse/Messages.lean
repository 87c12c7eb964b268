import Mathlib.Data.List.Forall2
import TurtleLogo.Proofs.Parse.Bare
import TurtleLogo.Proofs.Parse.Onward

/-!
What the errors of a text say. A message names kinds of tokens and, where a number is invalid, its
spelling, and no other token is ever called an invalid number. So a message can be told from the
bare token, and two texts whose tokens are alike have the same program up to places or the same
messages.
-/
namespace TurtleLogo
open Text

/-- Tokens that differ in their places at most, and in the spelling of what the program does not
    spell out: reserved words have abbreviations. -/
def Token.Alike (t u : Token) : Prop :=
  t.kind = u.kind ∧ (t.kind.isSpelled = true → t.literal = u.literal)

theorem Token.alike_iff {t u : Token} : t.Alike u ↔ t.bare = u.bare := by
  unfold Token.Alike Token.bare
  constructor
  · rintro ⟨kind, literal⟩
    rw [← kind]
    by_cases spelled : t.kind.isSpelled = true
    · rw [if_pos spelled, if_pos spelled, literal spelled]
    · rw [if_neg spelled, if_neg spelled]
  · intro same
    obtain ⟨kind, literal, -⟩ := Token.mk.inj same
    refine ⟨kind, fun spelled => ?_⟩
    rwa [← kind, if_pos spelled, if_pos spelled] at literal

theorem alike_iff_bare {ts us : List Token} :
    List.Forall₂ Token.Alike ts us ↔ ts.map Token.bare = us.map Token.bare := by
  rw [← List.forall₂_eq_eq_eq, List.forall₂_map_left_iff, List.forall₂_map_right_iff]
  constructor
  · intro alike
    exact alike.imp fun _ _ => Token.alike_iff.mp
  · intro bare
    exact bare.imp fun _ _ => Token.alike_iff.mpr

def ParseError.Fair (e : ParseError) : Prop := e.reason = .invalidNumber → e.token.kind = .number

theorem ParseError.Fair.detail {e : ParseError} (fair : e.Fair) : e.bare.detail = e.detail := by
  obtain ⟨token, reason⟩ := e
  cases reason with
  | unexpected => rfl
  | expected what => rfl
  | invalidNumber =>
    have number : token.kind = .number := fair rfl
    have kept : token.bare.literal = token.literal := Token.bare_literal (by rw [number]; rfl)
    unfold ParseError.detail ParseError.bare
    rw [kept]

theorem Parsed.Onward.fair {α : Type} {c resume : Cursor} {e : ParseError}
    (onward : (fail e resume : Parsed α).Onward c) : e.Fair := by
  obtain ⟨culprit, -, blames⟩ := onward
  intro invalid
  rw [blames.token]
  exact blames.number invalid

namespace Parse

theorem topLevel_fair (n : Nat) (c : Cursor) : ∀ e ∈ (topLevel n c).2, e.Fair := by
  induction n generalizing c with
  | zero => simp [topLevel]
  | succ n ih =>
    have onward := (stmt_onward c.fuel).statement c
    rw [topLevel]
    split
    · simp
    · cases read : statement c.fuel c with
      | ok s next => exact ih next
      | fail error resume =>
        rw [read] at onward
        intro e member
        rcases List.mem_cons.mp member with rfl | later
        · exact onward.fair
        · exact ih _ e later

end Parse

def Fault.tokenKind? : Fault → Option TokenKind
  | lex _ => none
  | parse e => some e.token.kind

def CompileError.reports (e : CompileError) : List (Bytes × Option TokenKind) :=
  e.faults.map fun f => (f.detail, f.tokenKind?)

theorem reports_of_bare {errors others : List ParseError} (fair : ∀ e ∈ errors, e.Fair)
    (fairOthers : ∀ e ∈ others, e.Fair)
    (bare : errors.map ParseError.bare = others.map ParseError.bare) :
    errors.map (fun e => (e.detail, e.token.kind)) =
      others.map fun e => (e.detail, e.token.kind) := by
  have told : ∀ es : List ParseError, (∀ e ∈ es, e.Fair) →
      es.map (fun e => (e.detail, e.token.kind)) =
        (es.map ParseError.bare).map fun e => (e.detail, e.token.kind) := by
    intro es fair
    rw [List.map_map]
    apply List.map_congr_left
    intro e member
    simp only [Function.comp_apply, (fair e member).detail]
    rfl
  rw [told errors fair, told others fairOthers, bare]

theorem parse_eq_error {source : Bytes} (legal : (tokenize source).errors = [])
    (failed : (Parse.topLevel ((tokenize source).tokens.length + 1)
      (Cursor.ofLexed (tokenize source))).2 ≠ []) :
    parse source = .error ⟨source, (Parse.topLevel ((tokenize source).tokens.length + 1)
      (Cursor.ofLexed (tokenize source))).2.map .parse⟩ := by
  simp only [parse, legal, List.isEmpty_nil, if_true]
  rw [if_neg]
  simpa using failed

/-- Texts whose tokens are alike are both accepted, as the same program up to places, or both
    rejected for the same reasons. -/
theorem parse_of_alike {source other : Bytes} (legal : (tokenize source).errors = [])
    (legalOther : (tokenize other).errors = [])
    (alike : List.Forall₂ Token.Alike (tokenize source).tokens (tokenize other).tokens) :
    (∃ p q, parse source = .ok p ∧ parse other = .ok q ∧
      unplacedAll p.statements = unplacedAll q.statements) ∨
    ∃ d e, parse source = .error d ∧ parse other = .error e ∧ d.reports = e.reports := by
  have bare := alike_iff_bare.mp alike
  have size := alike.length_eq
  have starts : bareStart source = bareStart other := by
    simp [bareStart, Cursor.bare, Cursor.ofLexed, bare]
  have readSource := Parse.topLevel_bare ((tokenize source).tokens.length + 1)
    (Cursor.ofLexed (tokenize source))
  have readOther := Parse.topLevel_bare ((tokenize other).tokens.length + 1)
    (Cursor.ofLexed (tokenize other))
  have same := readSource.symm.trans
    ((congrArg₂ Parse.topLevel (congrArg (· + 1) size) starts).trans readOther)
  obtain ⟨statements, errors⟩ := Prod.mk.inj same
  by_cases clean : (Parse.topLevel ((tokenize source).tokens.length + 1)
      (Cursor.ofLexed (tokenize source))).2 = []
  · left
    have cleanOther : (Parse.topLevel ((tokenize other).tokens.length + 1)
        (Cursor.ofLexed (tokenize other))).2 = [] := by
      rw [clean] at errors
      exact List.map_eq_nil_iff.mp errors.symm
    exact ⟨⟨_, source⟩, ⟨_, other⟩, parse_eq_ok_iff.mpr ⟨legal, Prod.ext rfl clean, rfl⟩,
      parse_eq_ok_iff.mpr ⟨legalOther, Prod.ext rfl cleanOther, rfl⟩, statements⟩
  · right
    have failedOther : (Parse.topLevel ((tokenize other).tokens.length + 1)
        (Cursor.ofLexed (tokenize other))).2 ≠ [] := by
      intro cleanOther
      rw [cleanOther] at errors
      exact clean (List.map_eq_nil_iff.mp errors)
    refine ⟨_, _, parse_eq_error legal clean, parse_eq_error legalOther failedOther, ?_⟩
    have reports := reports_of_bare (Parse.topLevel_fair _ _) (Parse.topLevel_fair _ _) errors
    have lifted := congrArg (List.map fun r : Bytes × TokenKind => (r.1, some r.2)) reports
    simpa [CompileError.reports, Fault.detail, Fault.tokenKind?, Function.comp_def] using lifted

end TurtleLogo
