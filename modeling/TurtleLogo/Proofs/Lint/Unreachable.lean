import Mathlib.Data.List.Perm.Basic
import TurtleLogo.Proofs.Evaluate.Counterpart
import TurtleLogo.Session

/-!
Statements that are never reached. Pruning leaves out of every list of statements what follows the
first stop or output statement. The linter warns of exactly the statements that are left out, those
within another one excepted, and a pruned program runs like the whole program.
-/
namespace TurtleLogo
open Text

mutual

def Stmt.pruned : Stmt → Stmt
  | .define pos name namePos params body => .define pos name namePos params (prunedAll body)
  | .loop pos count body => .loop pos count (prunedAll body)
  | .test pos left op right body => .test pos left op right (prunedAll body)
  | s => s

def prunedAll : List Stmt → List Stmt
  | [] => []
  | s :: rest => s.pruned :: if Lint.terminates s then [] else prunedAll rest

end

mutual

/-- What pruning leaves out of the blocks of a statement, with the procedure around it. What stands
    within a statement that is left out is not listed again. -/
def Stmt.cutOff (procedure : Name) : Stmt → List (Name × Stmt)
  | .define _ name _ _ body => cutOffAll name body
  | .loop _ _ body => cutOffAll procedure body
  | .test _ _ _ _ body => cutOffAll procedure body
  | _ => []

def cutOffAll (procedure : Name) : List Stmt → List (Name × Stmt)
  | [] => []
  | s :: rest =>
    s.cutOff procedure ++
      if Lint.terminates s then rest.map (procedure, ·) else cutOffAll procedure rest

end

mutual

def Stmt.places : Stmt → List Position
  | .define pos _ _ _ body => pos :: placesOf body
  | .loop pos _ body => pos :: placesOf body
  | .test pos _ _ _ body => pos :: placesOf body
  | s => [s.pos]

def placesOf : List Stmt → List Position
  | [] => []
  | s :: rest => s.places ++ placesOf rest

end

def Program.pruned (p : Program) : Program := ⟨prunedAll p.statements, p.source⟩

/-- The machine with the bodies of its procedures pruned. -/
def Machine.pruned (m : Machine) : Machine :=
  { m with env := { m.env with procedures := m.env.procedures.map fun entry =>
      (entry.1, { entry.2 with body := prunedAll entry.2.body }) } }

theorem terminates_pruned (s : Stmt) : Lint.terminates s.pruned = Lint.terminates s := by
  cases s <;> rfl

mutual

theorem Stmt.pruned_pruned : ∀ s : Stmt, s.pruned.pruned = s.pruned
  | .define _ _ _ _ body => by simp only [Stmt.pruned, prunedAll_prunedAll body]
  | .loop _ _ body => by simp only [Stmt.pruned, prunedAll_prunedAll body]
  | .test _ _ _ _ body => by simp only [Stmt.pruned, prunedAll_prunedAll body]
  | .make .. | .loopCall .. | .pen .. | .move .. | .turn .. | .home _ | .setXY .. | .setHeading ..
  | .call .. | .stop _ | .output .. => rfl

theorem prunedAll_prunedAll : ∀ ss : List Stmt, prunedAll (prunedAll ss) = prunedAll ss
  | [] => rfl
  | s :: rest => by
    rw [prunedAll, prunedAll, terminates_pruned, Stmt.pruned_pruned s]
    cases Lint.terminates s with
    | true => rfl
    | false => simp only [Bool.false_eq_true, if_false, prunedAll_prunedAll rest]

end

theorem placesOf_eq_flatMap (ss : List Stmt) : placesOf ss = ss.flatMap Stmt.places := by
  induction ss with
  | nil => rfl
  | cons s rest ih => rw [placesOf, List.flatMap_cons, ih]

mutual

theorem count_places (pos : Position) (procedure : Name) : ∀ s : Stmt,
    s.places.count pos =
      s.pruned.places.count pos + ((s.cutOff procedure).flatMap (·.2.places)).count pos
  | .define at_ name _ _ body => by
    have inside := count_placesOf pos name body
    simp only [Stmt.places, Stmt.pruned, Stmt.cutOff, List.count_cons]
    omega
  | .loop at_ _ body => by
    have inside := count_placesOf pos procedure body
    simp only [Stmt.places, Stmt.pruned, Stmt.cutOff, List.count_cons]
    omega
  | .test at_ _ _ _ body => by
    have inside := count_placesOf pos procedure body
    simp only [Stmt.places, Stmt.pruned, Stmt.cutOff, List.count_cons]
    omega
  | .make .. | .loopCall .. | .pen .. | .move .. | .turn .. | .home _ | .setXY .. | .setHeading ..
  | .call .. | .stop _ | .output .. => rfl

theorem count_placesOf (pos : Position) (procedure : Name) : ∀ ss : List Stmt,
    (placesOf ss).count pos =
      (placesOf (prunedAll ss)).count pos +
        ((cutOffAll procedure ss).flatMap (·.2.places)).count pos
  | [] => rfl
  | s :: rest => by
    have head := count_places pos procedure s
    have tail := count_placesOf pos procedure rest
    rw [placesOf, prunedAll, placesOf, cutOffAll, List.flatMap_append]
    simp only [List.count_append]
    cases Lint.terminates s with
    | true =>
      have behind : (rest.map (procedure, ·)).flatMap (·.2.places) = placesOf rest := by
        rw [placesOf_eq_flatMap, List.flatMap_map]
      simp only [if_true, behind, placesOf, List.count_nil]
      omega
    | false =>
      simp only [Bool.false_eq_true, if_false]
      omega

end

theorem places_of_pruned (procedure : Name) (ss : List Stmt) :
    (placesOf ss).Perm
      (placesOf (prunedAll ss) ++ (cutOffAll procedure ss).flatMap (·.2.places)) := by
  rw [List.perm_iff_count]
  intro pos
  rw [List.count_append]
  exact count_placesOf pos procedure ss

def Warning.isUnreachable (w : Warning) : Bool := w.complaint == .unreachable

def unreachableWarning (entry : Name × Stmt) : Warning := ⟨entry.1, entry.2.pos, .unreachable⟩

namespace Lint
variable (definitions : List Definition)

theorem callWarnings_reachable (procedure : Name) (pos : Position) (name : Name) (got : Nat) :
    (callWarnings definitions procedure pos name got).filter Warning.isUnreachable = [] := by
  unfold callWarnings
  split
  · rfl
  · split <;> rfl

theorem loopCallWarnings_reachable (procedure : Name) (pos : Position) (name : Name) :
    (loopCallWarnings definitions procedure pos name).filter Warning.isUnreachable = [] := by
  unfold loopCallWarnings
  split
  · rfl
  · split <;> rfl

mutual

theorem expr_reachable (procedure : Name) : ∀ e : Expr,
    (expr definitions procedure e).filter Warning.isUnreachable = []
  | .number .. | .param .. | .var .. => rfl
  | .negate _ e | .group _ e | .random _ e => expr_reachable procedure e
  | .binary _ left right => by
    rw [expr, List.filter_append, expr_reachable procedure left, expr_reachable procedure right,
      List.append_nil]
  | .call _ _ args => by
    rw [expr, List.filter_append, callWarnings_reachable, exprs_reachable procedure args,
      List.append_nil]

theorem exprs_reachable (procedure : Name) : ∀ es : List Expr,
    (exprs definitions procedure es).filter Warning.isUnreachable = []
  | [] => rfl
  | e :: rest => by
    rw [exprs, List.filter_append, expr_reachable procedure e, exprs_reachable procedure rest,
      List.append_nil]

end

theorem filter_unreachable (entries : List (Name × Stmt)) :
    (entries.map unreachableWarning).filter Warning.isUnreachable =
      entries.map unreachableWarning := by
  rw [List.filter_eq_self]
  intro w member
  obtain ⟨entry, -, rfl⟩ := List.mem_map.mp member
  rfl

mutual

theorem statement_unreachable (procedure : Name) : ∀ s : Stmt,
    (statement definitions procedure s).filter Warning.isUnreachable =
      (s.cutOff procedure).map unreachableWarning
  | .define _ name _ _ body => statements_unreachable name body
  | .loop _ count body => by
    rw [statement, List.filter_append, expr_reachable definitions procedure count,
      statements_unreachable procedure body, List.nil_append, Stmt.cutOff]
  | .test _ left _ right body => by
    rw [statement, List.filter_append, List.filter_append,
      expr_reachable definitions procedure left, expr_reachable definitions procedure right,
      statements_unreachable procedure body, List.nil_append, List.nil_append, Stmt.cutOff]
  | .loopCall _ count _ => by
    rw [statement, List.filter_append, expr_reachable definitions procedure count,
      loopCallWarnings_reachable]
    rfl
  | .output _ value => by
    rw [statement, List.filter_append, expr_reachable definitions procedure value]
    split <;> rfl
  | .setXY _ x y => by
    rw [statement, List.filter_append, expr_reachable definitions procedure x,
      expr_reachable definitions procedure y]
    rfl
  | .call pos name args => expr_reachable definitions procedure (.call pos name args)
  | .make _ _ e | .move _ _ e | .turn _ _ e | .setHeading _ e =>
    expr_reachable definitions procedure e
  | .pen .. | .home _ | .stop _ => rfl

theorem statements_unreachable (procedure : Name) : ∀ ss : List Stmt,
    (statements definitions procedure ss).filter Warning.isUnreachable =
      (cutOffAll procedure ss).map unreachableWarning
  | [] => rfl
  | s :: rest => by
    rw [statements, List.filter_append, statement_unreachable procedure s, cutOffAll,
      List.map_append]
    congr 1
    cases terminates s with
    | true =>
      have behind : (rest.map fun t => (⟨procedure, t.pos, .unreachable⟩ : Warning)) =
          (rest.map (procedure, ·)).map unreachableWarning := by
        rw [List.map_map]
        rfl
      simp only [if_true, behind, filter_unreachable]
    | false => simpa using statements_unreachable procedure rest

end

theorem redefinitions_reachable :
    (redefinitions definitions).filter Warning.isUnreachable = [] := by
  rw [List.filter_eq_nil_iff]
  intro w member
  obtain ⟨d, -, found⟩ := List.mem_filterMap.mp member
  split at found
  · split at found
    · exact absurd found nofun
    · rw [← Option.some.inj found]
      exact nofun
  · exact absurd found nofun

end Lint

theorem warnings_unreachable (p : Program) :
    (p.warnings.filter Warning.isUnreachable).Perm
      ((cutOffAll topLevelName p.statements).map unreachableWarning) := by
  have sorted := (List.mergeSort_perm (Lint.redefinitions (definitionsOf p.statements) ++
    Lint.statements (definitionsOf p.statements) topLevelName p.statements) Lint.inOrder).filter
      Warning.isUnreachable
  rwa [List.filter_append, Lint.redefinitions_reachable, Lint.statements_unreachable,
    List.nil_append] at sorted

namespace Counterpart

def pruning : Counterpart := ⟨id, prunedAll, id, 0, []⟩

theorem pruning_stmt (s : Stmt) : pruning.stmt s = s.pruned := by
  cases s <;> simp only [stmt, pruning, Stmt.pruned, Expr.moved_id, movedArgs_id, id]

theorem pruning_frames (frames : List CallFrame) : frames.map pruning.frame = frames :=
  List.map_id frames

theorem pruning_machine (m : Machine) : pruning.machine m = m.pruned := by
  have calls : pruning.calls m.calls = m.calls := by
    simp only [Counterpart.calls, pruning_frames]
  simp only [machine, calls]
  simp only [pruning, List.append_nil, Nat.add_zero]
  rfl

theorem pruning_outcome {α : Type} (o : Outcome α) :
    pruning.outcome o = o.onMachine Machine.pruned := by
  cases o with
  | done v m => simp only [outcome, pruning_machine, Outcome.onMachine]
  | failed e m =>
    simp only [outcome, pruning_machine, Outcome.onMachine]
    rfl
  | outOfFuel => rfl

theorem pruning_lawful (ctx : Context) : pruning.Lawful ctx ctx where
  nil := rfl
  cons s rest := by
    refine ⟨if Lint.terminates s then [] else prunedAll rest, ?_, ?_⟩
    · rw [pruning_stmt]
      rfl
    · intro goesOn
      rw [goesOn]
      rfl
  error cause pos calls := by
    rw [pruning_frames]
    rfl
  refusal steps := rfl
  recursion := rfl

end Counterpart

theorem statements_pruned (n : Nat) (ctx : Context) (ss : List Stmt) (m : Machine) :
    Evaluate.statements n ctx (prunedAll ss) m.pruned =
      (Evaluate.statements n ctx ss m).onMachine Machine.pruned := by
  rw [← Counterpart.pruning_machine, ← Counterpart.pruning_outcome]
  exact (Counterpart.commutes (Counterpart.pruning_lawful ctx) n).statements ss m

/-- The linter warns of exactly the statements that pruning leaves out, those within another one
    excepted. On every session, under all limits, a pruned program and the whole program end in the
    same way, with the same error if they fail, on machines that differ in nothing but the pruned
    bodies of procedures. -/
theorem unreachable_statements_can_be_pruned (p : Program) :
    (p.warnings.filter Warning.isUnreachable).Perm
      ((cutOffAll topLevelName p.statements).map unreachableWarning) ∧
    (placesOf p.statements).Perm (placesOf p.pruned.statements ++
      (cutOffAll topLevelName p.statements).flatMap (·.2.places)) ∧
    ∀ (s : Session) (fuel : Nat) (limits : Limits) (cancelledFrom : Option Nat),
      (s.evaluate fuel limits cancelledFrom p.pruned).onMachine Machine.pruned =
        (s.evaluate fuel limits cancelledFrom p).onMachine Machine.pruned := by
  refine ⟨warnings_unreachable p, places_of_pruned topLevelName p.statements, ?_⟩
  intro s fuel limits cancelledFrom
  -- both runs are compared with the run of the pruned program on the pruned machine
  have whole := statements_pruned fuel ⟨limits, cancelledFrom, p.source⟩ p.statements s.machine
  have pruned := statements_pruned fuel ⟨limits, cancelledFrom, p.source⟩
    (prunedAll p.statements) s.machine
  rw [prunedAll_prunedAll] at pruned
  exact pruned.symm.trans whole

end TurtleLogo
