import TurtleLogo.Proofs.Parse.Onward
import TurtleLogo.Proofs.Scan.Places

/-!
Recovery from errors. A statement that fails is blamed on one token, and reading resumes in front of
that token or behind it. From there it goes on to the next token that begins a statement outside
every block. So the tokens that are blamed stand in the order of the text, each of them once, and no
statement is attempted within a block that another one has left open.
-/
namespace TurtleLogo
open Text

namespace Parse

theorem skip_stops (finish : Position) (arities : List (Name × Nat)) (opened : List Opener)
    (rest : List Token) :
    Cursor.LeadsTo ⟨rest, finish, opened, arities⟩ (skip finish arities opened rest) ∧
      ((skip finish arities opened rest).rest ≠ [] →
        (skip finish arities opened rest).opened = [] ∧
          startsStatement (skip finish arities opened rest).kind = true) := by
  induction rest generalizing opened with
  | nil => exact ⟨Cursor.leadsTo_refl _, fun more => absurd rfl more⟩
  | cons t rest ih =>
    rw [skip]
    split
    · rename_i stop
      obtain ⟨outside, starts⟩ := Bool.and_eq_true_iff.mp stop
      exact ⟨Cursor.leadsTo_refl _, fun _ => ⟨List.isEmpty_iff.mp outside, starts⟩⟩
    · obtain ⟨leads, stops⟩ := ih (track t.kind opened)
      have passed : Cursor.LeadsTo ⟨t :: rest, finish, opened, arities⟩
          ⟨rest, finish, track t.kind opened, arities⟩ := ⟨[t], rfl, rfl, rfl⟩
      exact ⟨passed.trans leads, stops⟩

theorem leadsTo_synchronize (c : Cursor) : c.LeadsTo (synchronize c) :=
  (skip_stops c.finish c.arities c.opened c.rest).1

theorem synchronize_stops {c : Cursor} (more : (synchronize c).rest ≠ []) :
    (synchronize c).opened = [] ∧ startsStatement (synchronize c).kind = true :=
  (skip_stops c.finish c.arities c.opened c.rest).2 more

end Parse

structure Attempt where
  start : Cursor
  outcome : Except ParseError Stmt

namespace Attempt

def statement? (a : Attempt) : Option Stmt := a.outcome.toOption

def error? (a : Attempt) : Option ParseError :=
  match a.outcome with
  | .ok _ => none
  | .error e => some e

end Attempt

def statementsOf (attempts : List Attempt) : List Stmt := attempts.filterMap Attempt.statement?

def errorsOf (attempts : List Attempt) : List ParseError := attempts.filterMap Attempt.error?

/-- The attempts from the cursor to the end of the text: one behind each statement that is read, and
    behind one that fails where reading resumes. -/
inductive Attempts : Cursor → List Attempt → Prop where
  | ended {c : Cursor} (done : c.rest = []) : Attempts c []
  | read {c next : Cursor} {s : Stmt} {later : List Attempt} (more : c.rest ≠ [])
      (succeeds : Parse.statement c.fuel c = .ok s next) (tail : Attempts next later) :
      Attempts c (⟨c, .ok s⟩ :: later)
  | failed {c resume : Cursor} {e : ParseError} {later : List Attempt} (more : c.rest ≠ [])
      (fails : Parse.statement c.fuel c = .fail e resume)
      (tail : Attempts (Parse.synchronize resume) later) : Attempts c (⟨c, .error e⟩ :: later)

namespace Attempts
open Parse

theorem statement_onward (c : Cursor) : (statement c.fuel c).Onward c.advance ∨
    startsStatement c.kind = false ∧ statement c.fuel c = unexpected c :=
  statement_onward_succ (stmt_onward _) c

theorem resume_shortens {c resume : Cursor} {e : ParseError} (more : c.rest ≠ [])
    (fails : statement c.fuel c = .fail e resume) :
    (synchronize resume).rest.length < c.rest.length := by
  have passed : c.advance.rest.length < c.rest.length := by
    obtain ⟨t, rest, found⟩ := List.exists_cons_of_ne_nil more
    rw [Cursor.advance_rest found, found]
    exact Nat.lt_succ_self _
  have behind : resume.rest.length ≤ c.advance.rest.length := by
    rcases statement_onward c with onward | ⟨-, rejected⟩
    · rw [fails] at onward
      exact onward.leadsTo.length_le
    · obtain ⟨-, rfl⟩ := Parsed.fail.inj (fails.symm.trans rejected)
      exact Nat.le_refl _
  have further := (leadsTo_synchronize resume).length_le
  omega

theorem of_topLevel {n : Nat} {c : Cursor} (fuel : c.rest.length < n) :
    ∃ attempts, Attempts c attempts ∧
      topLevel n c = (statementsOf attempts, errorsOf attempts) := by
  induction n generalizing c with
  | zero => exact absurd fuel (Nat.not_lt_zero _)
  | succ n ih =>
    rw [topLevel]
    by_cases done : c.rest = []
    · refine ⟨[], .ended done, ?_⟩
      rw [done]
      rfl
    · rw [if_neg (mt List.isEmpty_iff.mp done)]
      cases found : statement c.fuel c with
      | ok s next =>
        have shorter := statement_shortens found
        obtain ⟨later, tail, same⟩ := ih (c := next) (by omega)
        exact ⟨_, .read done found tail, by simp only [same]; rfl⟩
      | fail e resume =>
        have shorter := resume_shortens done found
        obtain ⟨later, tail, same⟩ := ih (c := synchronize resume) (by omega)
        exact ⟨_, .failed done found tail, by simp only [same]; rfl⟩

variable {c : Cursor} {attempts : List Attempt}

theorem eq_nil_of_end (tried : Attempts c attempts) (done : c.rest = []) : attempts = [] := by
  cases tried with
  | ended => rfl
  | read more => exact absurd done more
  | failed more => exact absurd done more

/-- What is blamed once reading has resumed stands behind the token blamed before. -/
theorem blamed_behind {culprit resume : Cursor} {tokens : List Token}
    (resumes : resume = culprit ∨ resume = culprit.advance)
    (emptied : (synchronize resume).rest = [] → tokens = [])
    (later : tokens.Sublist (synchronize resume).ahead)
    (strict : startsStatement (synchronize resume).kind = true →
      tokens.Sublist (synchronize resume).advance.ahead) :
    (culprit.peek :: tokens).Sublist culprit.ahead := by
  by_cases done : (synchronize resume).rest = []
  · rw [emptied done]
    exact culprit.peek_ahead
  have leads := leadsTo_synchronize resume
  have onward : culprit.LeadsTo resume := by
    rcases resumes with rfl | rfl
    · exact Cursor.leadsTo_refl _
    · exact culprit.leadsTo_advance
  rw [Cursor.ahead_eq ((onward.trans leads).rest_ne_nil done)]
  refine .cons_cons _ ?_
  rcases resumes with rfl | rfl
  · -- reading resumes in front of the culprit, which begins a statement if it is not passed over
    exact (strict (synchronize_stops done).2).trans (leads.advance_ahead done).sublist
  · exact later.trans leads.ahead.sublist

/-- The blamed tokens stand ahead in their order, and a first token that begins a statement is not
    among them. -/
theorem blamed_ahead (tried : Attempts c attempts) :
    ((errorsOf attempts).map ParseError.token).Sublist c.ahead ∧
      (startsStatement c.kind = true →
        ((errorsOf attempts).map ParseError.token).Sublist c.advance.ahead) := by
  induction tried with
  | ended done => exact ⟨List.nil_sublist _, fun _ => List.nil_sublist _⟩
  | @read c next s later more succeeds tail ih =>
    have behind : c.advance.LeadsTo next := by
      rcases statement_onward c with onward | ⟨-, rejected⟩
      · rwa [succeeds] at onward
      · exact absurd (succeeds.symm.trans rejected) nofun
    have strict := ih.1.trans behind.ahead.sublist
    exact ⟨strict.trans c.leadsTo_advance.ahead.sublist, fun _ => strict⟩
  | @failed c resume e later more fails tail ih =>
    have blamed : ∀ culprit : Cursor, e.token = culprit.peek →
        (resume = culprit ∨ resume = culprit.advance) →
        ((errorsOf (⟨c, .error e⟩ :: later)).map ParseError.token).Sublist culprit.ahead := by
      intro culprit token resumes
      have emptied : (synchronize resume).rest = [] →
          (errorsOf later).map ParseError.token = [] := by
        intro done
        rw [tail.eq_nil_of_end done]
        rfl
      have whole := blamed_behind resumes emptied ih.1 ih.2
      rwa [← token] at whole
    rcases statement_onward c with onward | ⟨other, rejected⟩
    · rw [fails] at onward
      obtain ⟨culprit, leads, token, -, resumes⟩ := onward
      have strict := (blamed culprit token resumes).trans leads.ahead.sublist
      exact ⟨strict.trans c.leadsTo_advance.ahead.sublist, fun _ => strict⟩
    · obtain ⟨rfl, rfl⟩ := Parsed.fail.inj (fails.symm.trans rejected)
      refine ⟨blamed c rfl (.inr rfl), fun starts => ?_⟩
      rw [other] at starts
      contradiction

theorem outside (tried : Attempts c attempts) (closed : c.rest ≠ [] → c.opened = []) :
    ∀ a ∈ attempts, c.LeadsTo a.start ∧ a.start.opened = [] := by
  induction tried with
  | ended done => exact fun a member => absurd member List.not_mem_nil
  | @read c next s later more succeeds tail ih =>
    have leads := (stmt_onward c.fuel).statement c
    rw [succeeds] at leads
    have reads := (stmt_reads c.fuel).statement succeeds
    have balanced : next.opened = [] := by
      rw [reads.opened, s.nested.trackAll_eq, closed more]
    refine List.forall_mem_cons.mpr ⟨⟨c.leadsTo_refl, closed more⟩, fun a member => ?_⟩
    obtain ⟨further, outside⟩ := ih (fun _ => balanced) a member
    exact ⟨leads.trans further, outside⟩
  | @failed c resume e later more fails tail ih =>
    have leads := (stmt_onward c.fuel).statement c
    rw [fails] at leads
    refine List.forall_mem_cons.mpr ⟨⟨c.leadsTo_refl, closed more⟩, fun a member => ?_⟩
    obtain ⟨further, outside⟩ := ih (fun more => (synchronize_stops more).1) a member
    exact ⟨(leads.leadsTo.trans (leadsTo_synchronize resume)).trans further, outside⟩

end Attempts

/-- A text that consists of tokens is read by attempts at top-level statements, none of which starts
    within a block that the tokens before it leave open. The text is accepted if no attempt fails,
    and otherwise has one error for each that fails. The tokens blamed for the errors are tokens of
    the text, its end included, and each stands behind the one before. -/
theorem recovery_is_orderly {source : Bytes} (legal : (tokenize source).errors = []) :
    ∃ attempts, Attempts (Cursor.ofLexed (tokenize source)) attempts ∧
      (∀ a ∈ attempts, a.start.opened = [] ∧ ∃ passed,
        (tokenize source).tokens = passed ++ a.start.rest ∧
          trackAll [] (passed.map Token.kind) = []) ∧
      (∀ p, parse source = .ok p ↔
        errorsOf attempts = [] ∧ p = ⟨statementsOf attempts, source⟩) ∧
      (∀ d, parse source = .error d ↔
        errorsOf attempts ≠ [] ∧ d = ⟨source, (errorsOf attempts).map .parse⟩) ∧
      (∀ e ∈ errorsOf attempts, e.token ∈ (tokenize source).allTokens) ∧
      ((errorsOf attempts).map (·.token.pos.offset)).Pairwise (· < ·) := by
  have fuel : (Cursor.ofLexed (tokenize source)).rest.length <
      (tokenize source).tokens.length + 1 :=
    Nat.lt_succ_self _
  obtain ⟨attempts, tried, read⟩ := Attempts.of_topLevel fuel
  have blamed : ((errorsOf attempts).map ParseError.token).Sublist (tokenize source).allTokens :=
    tried.blamed_ahead.1
  have parsed : parse source = if (errorsOf attempts).isEmpty
      then .ok ⟨statementsOf attempts, source⟩
      else .error ⟨source, (errorsOf attempts).map .parse⟩ := by
    simp only [parse, legal, read, List.isEmpty_nil, if_true]
  refine ⟨attempts, tried, ?_, ?_, ?_, ?_, ?_⟩
  · intro a member
    obtain ⟨⟨passed, rest, -, opened⟩, outside⟩ := tried.outside (fun _ => rfl) a member
    exact ⟨outside, passed, rest, opened.symm.trans outside⟩
  · intro p
    by_cases clean : errorsOf attempts = []
    · simp [parsed, clean, eq_comm]
    · simp [parsed, clean]
  · intro d
    rw [parsed]
    by_cases clean : errorsOf attempts = []
    · simp [clean]
    · rw [if_neg (mt List.isEmpty_iff.mp clean), Except.error.injEq]
      exact ⟨fun same => ⟨clean, same.symm⟩, fun both => both.2.symm⟩
  · intro e member
    exact blamed.subset (List.mem_map_of_mem member)
  · have increasing := (allTokens_increasing source).sublist (blamed.map Token.pos)
    rw [List.map_map, List.pairwise_map] at increasing
    rw [List.pairwise_map]
    exact increasing

def brokenErrors : List ParseError :=
  [⟨⟨.endDefine, utf8 "end", ⟨8, 1, 9⟩⟩, .unexpected⟩,
    ⟨⟨.penDown, utf8 "pd", ⟨17, 1, 18⟩⟩, .expected (.kind .varName)⟩]

/-- The statement in the body is not attempted again, and the word blamed last is. -/
theorem recovery_is_orderly_of_broken_body :
    (tokenize (utf8 "to f fd end make pd pu")).errors = [] ∧
      ∃ attempts, Attempts (Cursor.ofLexed (tokenize (utf8 "to f fd end make pd pu"))) attempts ∧
        errorsOf attempts = brokenErrors ∧
        (∀ a ∈ attempts, a.start.opened = [] ∧ ∃ passed,
          (tokenize (utf8 "to f fd end make pd pu")).tokens = passed ++ a.start.rest ∧
            trackAll [] (passed.map Token.kind) = []) ∧
        ((errorsOf attempts).map (·.token.pos.offset)).Pairwise (· < ·) := by
  obtain ⟨legal, rejected⟩ : (tokenize (utf8 "to f fd end make pd pu")).errors = [] ∧
      parse (utf8 "to f fd end make pd pu") =
        .error ⟨utf8 "to f fd end make pd pu", brokenErrors.map .parse⟩ := by decide +kernel
  obtain ⟨attempts, tried, outside, -, errors, -, increasing⟩ := recovery_is_orderly legal
  refine ⟨legal, attempts, tried, ?_, outside, increasing⟩
  obtain ⟨-, same⟩ := (errors _).mp rejected
  have injective : Function.Injective Fault.parse := fun _ _ => Fault.parse.inj
  exact (List.map_injective_iff.mpr injective (CompileError.mk.inj same).2).symm

end TurtleLogo
