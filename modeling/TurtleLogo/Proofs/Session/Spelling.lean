import TurtleLogo.Proofs.Parse.Messages
import TurtleLogo.Proofs.Session.Concatenated

/-!
Layout and spelling. White space, comments, line breaks and abbreviations of reserved words leave no
trace in a program but its places, and no run depends on a place. So texts whose tokens are alike
are accepted or rejected alike and run alike, step by step, from every session and under all limits.
-/
namespace TurtleLogo
open Text

namespace Counterpart

/-- Without a place no limit is reached earlier or later. -/
theorem unplacing_lawful_of_same (limits : Limits) (cancelledFrom : Option Nat) (source : Bytes) :
    (unplacing 0 []).Lawful ⟨limits, cancelledFrom, source⟩ ⟨limits, cancelledFrom, []⟩ where
  nil := rfl
  cons s rest := by
    refine ⟨unplacedAll rest, ?_, fun _ => rfl⟩
    rw [unplacing_stmt]
    rfl
  error cause pos calls := unplaced_at cause source [] pos calls
  refusal steps := rfl
  recursion := rfl

theorem steps_of_same {o o' : Outcome Signal}
    (same : (unplacing 0 []).outcome o = (unplacing 0 []).outcome o') :
    o.machine?.map Machine.steps = o'.machine?.map Machine.steps := by
  have kept : ∀ o : Outcome Signal, o.machine?.map Machine.steps =
      ((unplacing 0 []).outcome o).machine?.map Machine.steps := by
    intro o
    cases o <;> rfl
  rw [kept o, kept o', same]

end Counterpart

namespace Session

theorem evaluate_of_unplaced {p q : Program}
    (same : unplacedAll p.statements = unplacedAll q.statements) (s : Session) (fuel : Nat)
    (limits : Limits) (cancelledFrom : Option Nat) :
    (Counterpart.unplacing 0 []).outcome (s.evaluate fuel limits cancelledFrom p) =
      (Counterpart.unplacing 0 []).outcome (s.evaluate fuel limits cancelledFrom q) := by
  have run : ∀ r : Program,
      Evaluate.statements fuel ⟨limits, cancelledFrom, []⟩ (unplacedAll r.statements)
          ((Counterpart.unplacing 0 []).machine s.machine) =
        (Counterpart.unplacing 0 []).outcome (s.evaluate fuel limits cancelledFrom r) := by
    intro r
    have law := Counterpart.unplacing_lawful_of_same limits cancelledFrom r.source
    exact (Counterpart.commutes law fuel).statements r.statements s.machine
  rw [← run p, ← run q, same]

end Session

theorem alike_of_allTokens {l l' : Lexed}
    (alike : List.Forall₂ Token.Alike l.allTokens l'.allTokens) :
    List.Forall₂ Token.Alike l.tokens l'.tokens := by
  have size := alike.length_eq
  simp only [Lexed.allTokens, List.length_append, List.length_singleton] at size
  have front := List.forall₂_take l.tokens.length alike
  unfold Lexed.allTokens at front
  rwa [List.take_left, Nat.add_right_cancel size, List.take_left] at front

/-- Two texts that consist of tokens and whose tokens are alike have the same program up to places,
    or the same messages about tokens of the same kinds. If they are accepted, they come to the same
    from every session, with every fuel and under all limits: the same signal or the same cause of
    failure in the same chain of procedures, the same session up to the places of its procedures,
    and as many steps. -/
theorem layout_and_spelling_are_immaterial {source other : Bytes}
    (legal : (tokenize source).errors = []) (legalOther : (tokenize other).errors = [])
    (alike : List.Forall₂ Token.Alike (tokenize source).allTokens (tokenize other).allTokens) :
    (∃ p q, parse source = .ok p ∧ parse other = .ok q ∧
      unplacedAll p.statements = unplacedAll q.statements ∧
      ∀ (s : Session) (fuel : Nat) (limits : Limits) (cancelledFrom : Option Nat),
        (s.evaluate fuel limits cancelledFrom p).upshot? =
            (s.evaluate fuel limits cancelledFrom q).upshot? ∧
          (s.evaluate fuel limits cancelledFrom p).machine?.map Machine.steps =
            (s.evaluate fuel limits cancelledFrom q).machine?.map Machine.steps) ∨
    ∃ d e, parse source = .error d ∧ parse other = .error e ∧ d.reports = e.reports := by
  rcases parse_of_alike legal legalOther (alike_of_allTokens alike) with
    ⟨p, q, accepted, acceptedOther, same⟩ | rejected
  · left
    refine ⟨p, q, accepted, acceptedOther, same, ?_⟩
    intro s fuel limits cancelledFrom
    have runs := s.evaluate_of_unplaced same fuel limits cancelledFrom
    exact ⟨Counterpart.upshot_of_same runs, Counterpart.steps_of_same runs⟩
  · exact .inr rejected

/-- A loop written in two ways, of which one has a comment; and a number where a statement should
    begin, which both ways of writing it are rejected for. -/
theorem layout_and_spelling_are_immaterial_of_abbreviations :
    (∃ p q, parse (utf8 "repeat 2[fd :x]") = .ok p ∧
      parse (utf8 "repeat 2 ; twice\n[ forward :x ]") = .ok q ∧ p.statements.length = 1 ∧
      unplacedAll p.statements = unplacedAll q.statements ∧
      ((Session.start ⟨0, 0⟩).evaluate 9 .none none p).upshot? =
        ((Session.start ⟨0, 0⟩).evaluate 9 .none none q).upshot?) ∧
    ∃ d e, parse (utf8 "pu 7") = .error d ∧ parse (utf8 "penup\n7") = .error e ∧
      d.reports = e.reports ∧ e.reports.length = 1 := by
  obtain ⟨legal, legalOther, same, p, accepted, one⟩ :
      (tokenize (utf8 "repeat 2[fd :x]")).errors = [] ∧
      (tokenize (utf8 "repeat 2 ; twice\n[ forward :x ]")).errors = [] ∧
      (tokenize (utf8 "repeat 2[fd :x]")).allTokens.map Token.bare =
        (tokenize (utf8 "repeat 2 ; twice\n[ forward :x ]")).allTokens.map Token.bare ∧
      ∃ p, parse (utf8 "repeat 2[fd :x]") = .ok p ∧ p.statements.length = 1 := by
    decide +kernel
  obtain ⟨legalNumber, legalBelow, sameNumber, d, rejected, single⟩ :
      (tokenize (utf8 "pu 7")).errors = [] ∧ (tokenize (utf8 "penup\n7")).errors = [] ∧
      (tokenize (utf8 "pu 7")).allTokens.map Token.bare =
        (tokenize (utf8 "penup\n7")).allTokens.map Token.bare ∧
      ∃ d, parse (utf8 "pu 7") = .error d ∧ d.reports.length = 1 := by
    decide +kernel
  constructor
  · rcases layout_and_spelling_are_immaterial legal legalOther (alike_iff_bare.mpr same) with
      ⟨p', q, read, readOther, alike, run⟩ | ⟨d, e, broken, -⟩
    · obtain rfl := Except.ok.inj (accepted.symm.trans read)
      exact ⟨p, q, accepted, readOther, one, alike, (run _ _ _ _).1⟩
    · cases accepted.symm.trans broken
  · rcases layout_and_spelling_are_immaterial legalNumber legalBelow
      (alike_iff_bare.mpr sameNumber) with ⟨p', q, read, -⟩ | ⟨d', e, broken, other, alike⟩
    · cases rejected.symm.trans read
    · obtain rfl := Except.error.inj (rejected.symm.trans broken)
      exact ⟨d, e, rejected, other, alike, alike ▸ single⟩

end TurtleLogo
