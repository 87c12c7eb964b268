import TurtleLogo.Proofs.Evaluate.Counterpart
import TurtleLogo.Proofs.Evaluate.Frames
import TurtleLogo.Proofs.Evaluate.Quota
import TurtleLogo.Proofs.Parse.Concatenated

/-!
A session as one program. Two texts that run one after the other in a session do what one text does
that has the second behind the first. Headers are known only within their text, so the second text
must call the procedures of the first with as many arguments as they take. Both runs are compared
with a third one, of the same statements without their places.
-/
namespace TurtleLogo
open Text

def Procedure.unplaced (p : Procedure) : Procedure :=
  ⟨p.name, p.params, unplacedAll p.body, .nowhere⟩

def Session.unplaced (s : Session) : Session :=
  { s with env :=
    { s.env with procedures := s.env.procedures.map fun entry => (entry.1, entry.2.unplaced) } }

/-- What a run comes to, places apart: the signal, or the cause of the failure and the procedures
    that it went through, and what became of the session. -/
structure Upshot where
  ending : Except (Cause × List Name) Signal
  session : Session

def Outcome.upshot? : Outcome Signal → Option Upshot
  | .done signal m => some ⟨.ok signal, (Session.ofMachine m).unplaced⟩
  | .failed e m =>
    some ⟨.error (e.cause, e.frames.map CallFrame.procedure), (Session.ofMachine m).unplaced⟩
  | .outOfFuel => none

def Session.Yields (limits : Limits) (cancelledFrom : Option Nat) (s : Session) (p : Program)
    (u : Upshot) : Prop :=
  ∃ o, s.Ends limits cancelledFrom p o ∧ o.upshot? = some u

theorem Evaluate.statements_append {k : Nat} (fuel : 0 < k) (ctx : Context)
    (front back : List Stmt) (m : Machine) :
    statements (k + front.length) ctx (front ++ back) m =
      (statements (k + front.length) ctx front m).bind fun signal m =>
        match signal with
        | .finished => statements k ctx back m
        | _ => .done signal m := by
  induction front generalizing m with
  | nil =>
    obtain ⟨k, rfl⟩ : ∃ j, k = j + 1 := ⟨k - 1, by omega⟩
    rfl
  | cons s rest ih =>
    rw [List.cons_append, List.length_cons, ← Nat.add_assoc, statements, statements]
    cases step ctx s.pos m with
    | failed e mid => rfl
    | outOfFuel => rfl
    | done _ mid =>
      simp only [Outcome.bind]
      cases statement (k + rest.length) ctx s mid with
      | failed e after => rfl
      | outOfFuel => rfl
      | done signal after =>
        cases signal with
        | finished => exact ih after
        | stop => rfl
        | output value => rfl

theorem Context.refusal_of_no_quota {ctx : Context} (unlimited : ctx.limits.stepQuota = 0)
    (steps : Nat) :
    ctx.refusal steps = if ctx.cancelledAt steps then some .cancelled else .none := by
  simp [refusal, unlimited]

theorem cancelledAt_later (limits : Limits) (cancelledFrom : Option Nat) (source other : Bytes)
    (steps taken : Nat) :
    Context.cancelledAt ⟨limits, cancelledFrom, source⟩ (steps + taken) =
      Context.cancelledAt ⟨limits, cancelledFrom.map (· - taken), other⟩ steps := by
  cases cancelledFrom with
  | none => rfl
  | some first => simp only [Context.cancelledAt, Option.map_some, Nat.sub_le_iff_le_add]

def RuntimeError.unplaced (e : RuntimeError) : RuntimeError :=
  ⟨e.cause, [], e.frames.map fun f => ⟨f.procedure, .nowhere⟩⟩

theorem unplaced_at (cause : Cause) (source other : Bytes) (pos : Position)
    (calls : List CallFrame) :
    (RuntimeError.at cause source pos calls).unplaced =
      RuntimeError.at cause other .nowhere (calls.map fun f => ⟨f.procedure, .nowhere⟩) := by
  have nothing : codeFrame other .nowhere 1 = [] := by
    rw [codeFrame, if_pos]
    exact Bool.or_true _
  simp only [RuntimeError.at, RuntimeError.unplaced, nothing]
  cases calls <;> rfl

namespace Counterpart

def unplacing (taken : Nat) (earlier : List Event) : Counterpart :=
  ⟨fun _ => .nowhere, unplacedAll, RuntimeError.unplaced, taken, earlier⟩

theorem unplacing_stmt (taken : Nat) (earlier : List Event) (s : Stmt) :
    (unplacing taken earlier).stmt s = s.unplaced := by
  cases s <;> rfl

theorem unplacing_lawful (recursion : Nat) (cancelledFrom : Option Nat) (source : Bytes)
    (taken : Nat) (earlier : List Event) :
    (unplacing taken earlier).Lawful
      ⟨⟨0, recursion⟩, cancelledFrom.map (· - taken), source⟩
      ⟨⟨0, recursion⟩, cancelledFrom, []⟩ where
  nil := rfl
  cons s rest := by
    refine ⟨unplacedAll rest, ?_, fun _ => rfl⟩
    rw [unplacing_stmt]
    rfl
  error cause pos calls := unplaced_at cause source [] pos calls
  refusal steps := by
    rw [Context.refusal_of_no_quota rfl, Context.refusal_of_no_quota rfl]
    exact congrArg (fun b => if b then some Cause.cancelled else none)
      (cancelledAt_later ⟨0, recursion⟩ cancelledFrom [] source steps taken)
  recursion := rfl

theorem unplacing_session (taken : Nat) (earlier : List Event) (m : Machine) :
    (Session.ofMachine m).unplaced = Session.ofMachine ((unplacing taken earlier).machine m) := rfl

theorem upshot_of_same {taken taken' : Nat} {earlier earlier' : List Event}
    {o o' : Outcome Signal}
    (same : (unplacing taken earlier).outcome o = (unplacing taken' earlier').outcome o') :
    o.upshot? = o'.upshot? := by
  cases o with
  | done signal m =>
    cases o' with
    | done signal' m' =>
      obtain ⟨rfl, machines⟩ := Outcome.done.inj same
      rw [Outcome.upshot?, unplacing_session taken earlier, machines]
      rfl
    | failed e' m' => cases same
    | outOfFuel => cases same
  | failed e m =>
    cases o' with
    | done signal' m' => cases same
    | failed e' m' =>
      obtain ⟨errors, machines⟩ := Outcome.failed.inj same
      obtain ⟨cause, -, frames⟩ := RuntimeError.mk.inj errors
      have names := congrArg (List.map CallFrame.procedure) frames
      rw [List.map_map, List.map_map] at names
      change e.frames.map CallFrame.procedure = e'.frames.map CallFrame.procedure at names
      rw [Outcome.upshot?, unplacing_session taken earlier, machines, cause, names]
      rfl
    | outOfFuel => cases same
  | outOfFuel =>
    cases o' with
    | done signal' m' => cases same
    | failed e' m' => cases same
    | outOfFuel => rfl

end Counterpart

namespace Session
variable {s : Session} {p q r : Program} {recursion : Nat} {cancelledFrom : Option Nat}
  {m : Machine}

theorem yields_of_evaluate {limits : Limits} {n : Nat} {u : Upshot}
    (upshot : (s.evaluate n limits cancelledFrom p).upshot? = some u) :
    s.Yields limits cancelledFrom p u := by
  refine ⟨_, ends_of_evaluate fun ended => ?_, upshot⟩
  rw [ended] at upshot
  cases upshot

theorem yields_iff {limits : Limits} {u : Upshot} :
    s.Yields limits cancelledFrom p u ↔
      ∃ fuel, ∀ n, fuel ≤ n → (s.evaluate n limits cancelledFrom p).upshot? = some u := by
  constructor
  · rintro ⟨o, ⟨-, fuel, stable⟩, upshot⟩
    exact ⟨fuel, fun n enough => by rw [stable n enough, upshot]⟩
  · rintro ⟨fuel, upshot⟩
    exact yields_of_evaluate (upshot fuel (Nat.le_refl _))

theorem evaluate_unplaced (s : Session) (p : Program) (recursion n : Nat)
    (cancelledFrom : Option Nat) (taken : Nat) (earlier : List Event) :
    Evaluate.statements n ⟨⟨0, recursion⟩, cancelledFrom, []⟩ (unplacedAll p.statements)
        ((Counterpart.unplacing taken earlier).machine s.machine) =
      (Counterpart.unplacing taken earlier).outcome
        (s.evaluate n ⟨0, recursion⟩ (cancelledFrom.map (· - taken)) p) :=
  (Counterpart.commutes
    (Counterpart.unplacing_lawful recursion cancelledFrom p.source taken earlier) n).statements
      p.statements s.machine

/-- A session goes on from the machine on which a run has ended, except that it counts the steps
    afresh and reports new events. -/
theorem unplacing_resumed (ended : m.calls = .empty) :
    (Counterpart.unplacing m.steps m.events).machine (ofMachine m).machine =
      (Counterpart.unplacing 0 []).machine m := by
  have calls : (Counterpart.unplacing 0 []).calls m.calls =
      (Counterpart.unplacing m.steps m.events).calls .empty := by
    rw [ended]
    rfl
  simp only [Counterpart.machine, calls]
  simp only [Counterpart.unplacing, machine, ofMachine, Nat.zero_add, Nat.add_zero,
    List.nil_append, List.append_nil]
  rfl

/-- Where the first of two programs has finished, the second goes on as if both were one. -/
theorem evaluate_concatenated
    (both : unplacedAll r.statements = unplacedAll p.statements ++ unplacedAll q.statements)
    (ran : s.Ends ⟨0, recursion⟩ cancelledFrom p (.done .finished m)) :
    ∃ needed, ∀ n, needed ≤ n →
      (Counterpart.unplacing 0 []).outcome
          (s.evaluate (n + (unplacedAll p.statements).length) ⟨0, recursion⟩ cancelledFrom r) =
        (Counterpart.unplacing m.steps m.events).outcome
          ((ofMachine m).evaluate n ⟨0, recursion⟩ (cancelledFrom.map (· - m.steps)) q) := by
  obtain ⟨-, fuel, finished⟩ := ran
  have outside : m.calls = .empty := by
    have last : ((Task.statements p.statements).run fuel ⟨⟨0, recursion⟩, cancelledFrom, p.source⟩
        s.machine).machine? = some m := congrArg Outcome.machine? (finished fuel (Nat.le_refl _))
    exact (same_frames_is_law.run last).1
  have unshifted : cancelledFrom.map (· - 0) = cancelledFrom := Option.map_id'
  refine ⟨fuel + 1, fun n enough => ?_⟩
  have front := s.evaluate_unplaced p recursion (n + (unplacedAll p.statements).length)
    cancelledFrom 0 []
  have whole := s.evaluate_unplaced r recursion (n + (unplacedAll p.statements).length)
    cancelledFrom 0 []
  have back := (ofMachine m).evaluate_unplaced q recursion n cancelledFrom m.steps m.events
  rw [unshifted, finished _ (by omega)] at front
  rw [unshifted, both, Evaluate.statements_append (by omega), front] at whole
  rw [unplacing_resumed outside] at back
  rw [← whole, ← back]
  rfl

end Session

/-- Two texts run one after the other in a session, of which the first finishes, come to what the
    text comes to that has the second behind the first, provided that the second calls procedures
    whose headers stand in the first with as many arguments as they take. One run has no end if the
    other has none. A run that is cancelled later is cancelled as many steps later. -/
theorem session_is_one_program {first second : Bytes} {p q : Program}
    (acceptedFirst : parse first = .ok p) (acceptedSecond : parse second = .ok q)
    (heeds : HeedsAll (declaredBy [] p.statements) [] q.statements) {s : Session} {recursion : Nat}
    {cancelledFrom : Option Nat} {m : Machine}
    (ran : s.Ends ⟨0, recursion⟩ cancelledFrom p (.done .finished m)) :
    ∃ r, parse (first ++ newline :: second) = .ok r ∧
      ∀ u, s.Yields ⟨0, recursion⟩ cancelledFrom r u ↔
        (Session.ofMachine m).Yields ⟨0, recursion⟩ (cancelledFrom.map (· - m.steps)) q u := by
  obtain ⟨r, accepted, both⟩ := parse_concatenated acceptedFirst acceptedSecond heeds
  obtain ⟨needed, alike⟩ := Session.evaluate_concatenated both ran
  have same : ∀ n, needed ≤ n → (s.evaluate (n + (unplacedAll p.statements).length)
      ⟨0, recursion⟩ cancelledFrom r).upshot? = ((Session.ofMachine m).evaluate n ⟨0, recursion⟩
        (cancelledFrom.map (· - m.steps)) q).upshot? :=
    fun n enough => Counterpart.upshot_of_same (alike n enough)
  refine ⟨r, accepted, fun u => ?_⟩
  rw [Session.yields_iff, Session.yields_iff]
  constructor
  · rintro ⟨fuel, upshot⟩
    refine ⟨max needed fuel, fun n enough => ?_⟩
    rw [← same n (by omega)]
    exact upshot _ (by omega)
  · rintro ⟨fuel, upshot⟩
    refine ⟨max needed fuel + (unplacedAll p.statements).length, fun n enough => ?_⟩
    obtain ⟨k, rfl⟩ : ∃ k, n = k + (unplacedAll p.statements).length :=
      ⟨n - (unplacedAll p.statements).length, by omega⟩
    rw [same k (by omega)]
    exact upshot k (by omega)

def header : Program :=
  ⟨[.define ⟨0, 1, 1⟩ [102] ⟨3, 1, 4⟩ [[120]] []], utf8 "to f :x end"⟩

def newHeader : Program :=
  ⟨[.call ⟨0, 1, 1⟩ [102] [.var ⟨2, 1, 3⟩ [118]],
    .define ⟨5, 1, 6⟩ [102] ⟨8, 1, 9⟩ [] [.pen ⟨10, 1, 11⟩ false],
    .call ⟨17, 1, 18⟩ [102] []], utf8 "f \"v to f pu end f"⟩

def sessionWithVariable : Session :=
  ⟨Environment.empty.setVariable [118] 1, .initial, ⟨0, 0⟩⟩

theorem session_is_one_program_of_new_header :
    parse (utf8 "to f :x end") = .ok header ∧ parse (utf8 "f \"v to f pu end f") = .ok newHeader ∧
      HeedsAll (declaredBy [] header.statements) [] newHeader.statements ∧
      (∃ m, sessionWithVariable.Ends .none none header (.done .finished m)) ∧
      ∃ r, parse (utf8 "to f :x end" ++ newline :: utf8 "f \"v to f pu end f") = .ok r ∧
        ∃ u, sessionWithVariable.Yields .none none r u ∧ u.ending = .ok .finished ∧
          u.session.env.procedures = [([102], ⟨[102], [], [.pen .nowhere false], .nowhere⟩)] := by
  obtain ⟨acceptedFirst, acceptedSecond⟩ : parse (utf8 "to f :x end") = .ok header ∧
      parse (utf8 "f \"v to f pu end f") = .ok newHeader := by decide +kernel
  have heeds : HeedsAll (declaredBy [] header.statements) [] newHeader.statements := by
    simp [HeedsAll, Stmt.Heeds, HeedsArgs, Expr.Heeds, Heeded, CallFits, Stmt.declared, declaredBy,
      header, newHeader]
  have ran : sessionWithVariable.Ends .none none header (.done .finished
      (sessionWithVariable.machine.tick.define ⟨[102], [[120]], [], ⟨0, 1, 1⟩⟩)) :=
    Session.ends_of_evaluate (n := 3) nofun
  obtain ⟨r, accepted, same⟩ := session_is_one_program acceptedFirst acceptedSecond heeds ran
  refine ⟨acceptedFirst, acceptedSecond, heeds, ⟨_, ran⟩, r, accepted, ?_⟩
  obtain ⟨u, upshot, finished, known⟩ :
      ∃ u ∈ ((Session.ofMachine (sessionWithVariable.machine.tick.define
          ⟨[102], [[120]], [], ⟨0, 1, 1⟩⟩)).evaluate 8 .none none newHeader).upshot?,
        u.ending = .ok .finished ∧ u.session.env.procedures =
          [([102], ⟨[102], [], [.pen .nowhere false], .nowhere⟩)] := by decide +kernel
  exact ⟨u, (same u).mpr (Session.yields_of_evaluate upshot), finished, known⟩

/-- A header is not known in another text. There a call takes arguments for as long as they follow,
    and where the header is known it takes exactly as many as that says. -/
theorem concatenated_call_misread :
    (∃ p q m e, parse (utf8 "to f end") = .ok p ∧ parse (utf8 "f :x") = .ok q ∧
      (Session.start ⟨0, 0⟩).Ends .none none p (.done .finished m) ∧
      parse (utf8 "to f end" ++ newline :: utf8 "f :x") = .error e) ∧
    ∃ p q m e, parse (utf8 "to f :x end") = .ok p ∧ parse (utf8 "f") = .ok q ∧
      (Session.start ⟨0, 0⟩).Ends .none none p (.done .finished m) ∧
      parse (utf8 "to f :x end" ++ newline :: utf8 "f") = .error e := by
  obtain ⟨plain, ⟨q, called⟩, e, together⟩ :
      parse (utf8 "to f end") =
        .ok ⟨[.define ⟨0, 1, 1⟩ [102] ⟨3, 1, 4⟩ [] []], utf8 "to f end"⟩ ∧
      (∃ q, parse (utf8 "f :x") = .ok q) ∧
      ∃ e, parse (utf8 "to f end" ++ newline :: utf8 "f :x") = .error e := by decide +kernel
  obtain ⟨asking, ⟨q', bare⟩, e', joined⟩ : parse (utf8 "to f :x end") = .ok header ∧
      (∃ q, parse (utf8 "f") = .ok q) ∧
      ∃ e, parse (utf8 "to f :x end" ++ newline :: utf8 "f") = .error e := by decide +kernel
  exact ⟨⟨_, q, _, e, plain, called, Session.ends_of_evaluate (n := 3) nofun, together⟩,
    header, q', _, e', asking, bare, Session.ends_of_evaluate (n := 3) nofun, joined⟩

end TurtleLogo
