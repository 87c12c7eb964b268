import TurtleLogo.Proofs.Parse.Messages
import TurtleLogo.Proofs.Parse.Recovery
import TurtleLogo.Proofs.Scan.InLine

/-!
What is at fault in a text. The culprit is a run in which no token begins or a token that the
grammar does not want, and stands in the line of its place; or it is the end of the text.
-/
namespace TurtleLogo
open Text

namespace Fault

def FoundIn (source : Bytes) : Fault → Prop
  | lex e => e ∈ (tokenize source).errors
  | parse e => ∃ d, TurtleLogo.parse source = .error d ∧ parse e ∈ d.faults

end Fault

/-- The faults of a text are those of its scan or, where there are none, of the attempts to read its
    statements. -/
theorem parse_error_faults {source : Bytes} {d : CompileError}
    (rejected : parse source = .error d) :
    d.source = source ∧ (d.faults = (tokenize source).errors.map .lex ∨
      ∃ attempts, Attempts (Cursor.ofLexed (tokenize source)) attempts ∧
        d.faults = (errorsOf attempts).map .parse) := by
  obtain ⟨attempts, tried, read⟩ :=
    Attempts.of_topLevel (Nat.lt_succ_self (Cursor.ofLexed (tokenize source)).rest.length)
  have workers : Parse.topLevel ((tokenize source).tokens.length + 1)
      (Cursor.ofLexed (tokenize source)) = (statementsOf attempts, errorsOf attempts) := read
  unfold parse at rejected
  simp only [workers] at rejected
  split at rejected
  · split at rejected
    · contradiction
    · obtain rfl := Except.error.inj rejected
      exact ⟨rfl, .inr ⟨attempts, tried, rfl⟩⟩
  · obtain rfl := Except.error.inj rejected
    exact ⟨rfl, .inl rfl⟩

namespace Fault
variable {source : Bytes}

theorem found_of_mem {d : CompileError} (rejected : TurtleLogo.parse source = .error d) :
    ∀ f ∈ d.faults, f.FoundIn source := by
  intro f member
  cases f with
  | parse e => exact ⟨d, rejected, member⟩
  | lex e =>
    obtain ⟨-, faults | ⟨attempts, -, faults⟩⟩ := parse_error_faults rejected
    · rw [faults] at member
      obtain ⟨error, inside, same⟩ := List.mem_map.mp member
      obtain rfl := Fault.lex.inj same
      exact inside
    · rw [faults] at member
      obtain ⟨error, -, same⟩ := List.mem_map.mp member
      contradiction

theorem blamed_mem {e : ParseError} (found : (parse e).FoundIn source) :
    e.token ∈ (tokenize source).allTokens := by
  obtain ⟨d, rejected, member⟩ := found
  obtain ⟨-, faults | ⟨attempts, tried, faults⟩⟩ := parse_error_faults rejected
  · rw [faults] at member
    obtain ⟨error, -, same⟩ := List.mem_map.mp member
    contradiction
  · rw [faults] at member
    obtain ⟨error, inside, same⟩ := List.mem_map.mp member
    obtain rfl := Fault.parse.inj same
    exact tried.blamed_ahead.1.subset (List.mem_map_of_mem inside)

variable {f : Fault}

theorem inLine (found : f.FoundIn source) (inside : f.tokenKind? ≠ some .eof) :
    Word f.culprit ∧ ∃ before behind, InLine source f.pos f.culprit before behind := by
  cases f with
  | lex e => exact error_inLine found
  | parse e =>
    obtain ⟨token, reason⟩ := e
    rcases List.mem_append.mp (blamed_mem found) with member | last
    · exact token_inLine member
    · obtain rfl := List.mem_singleton.mp last
      exact absurd rfl inside

theorem at_finish (found : f.FoundIn source) (ending : f.tokenKind? = some .eof) :
    f.culprit = [] ∧ f.pos = (tokenize source).finish := by
  cases f with
  | lex e => contradiction
  | parse e =>
    obtain ⟨token, reason⟩ := e
    rcases List.mem_append.mp (blamed_mem found) with member | last
    · obtain ⟨nonempty, rest, -, longest⟩ := (tokenize_faithful source).tokens token member
      exact absurd (Option.some.inj ending) (Scan.word_kind nonempty longest).2
    · obtain rfl := List.mem_singleton.mp last
      exact ⟨rfl, rfl⟩

end Fault
end TurtleLogo
