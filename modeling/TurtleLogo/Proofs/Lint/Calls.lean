import Mathlib.Data.List.Nodup
import TurtleLogo.Proofs.Evaluate.Policy
import TurtleLogo.Proofs.Parse.Bare
import TurtleLogo.Proofs.Parse.Faithful
import TurtleLogo.Proofs.Program.Calls

/-!
What the linter says of calls, and what happens to them. A site is a place where a program uses a
procedure. The linter looks at every site but those behind a statement that terminates its list,
and a run gets to no other site. Where no procedure is defined twice, a procedure that a run knows
is the one that the linter looks up, so a run fails at a site for want of arguments only if there
is a complaint, and enters a procedure from there only if there is none.
-/
namespace TurtleLogo
open Text

inductive Use where
  | call (arguments : Nat)
  | loop
  deriving DecidableEq, Repr

structure Site where
  pos : Position
  name : Name
  use : Use
  deriving DecidableEq, Repr

def Call.site (c : Call) : Site := ⟨c.pos, c.name, .call c.args.length⟩

def Expr.sites (e : Expr) : List Site := e.calls.map Call.site

def sitesOfArgs (es : List Expr) : List Site := (callsOfArgs es).map Call.site

theorem sites_binary (op : ArithOp) (left right : Expr) :
    (Expr.binary op left right).sites = left.sites ++ right.sites :=
  List.map_append

theorem sitesOfArgs_cons (e : Expr) (rest : List Expr) :
    sitesOfArgs (e :: rest) = e.sites ++ sitesOfArgs rest :=
  List.map_append

mutual

def Stmt.sites : Stmt → List Site
  | .define _ _ _ _ body => sitesOf body
  | .loop _ count body => count.sites ++ sitesOf body
  | .loopCall pos count target => ⟨pos, target, .loop⟩ :: count.sites
  | .test _ left _ right body => left.sites ++ (right.sites ++ sitesOf body)
  | .call pos name args => ⟨pos, name, .call args.length⟩ :: sitesOfArgs args
  | .make _ _ e | .move _ _ e | .turn _ _ e | .setHeading _ e | .output _ e => e.sites
  | .setXY _ x y => x.sites ++ y.sites
  | .pen .. | .home _ | .stop _ => []

/-- The sites of statements, those behind a terminating statement excepted. -/
def sitesOf : List Stmt → List Site
  | [] => []
  | s :: rest => s.sites ++ if Lint.terminates s then [] else sitesOf rest

end

def Site.complaint? (definitions : List Definition) (site : Site) : Option Complaint :=
  match definition? definitions site.name, site.use with
  | none, _ => some (.undefined site.name)
  | some d, .call got =>
    if d.params.length = got then none else some (.arity site.name d.params.length got)
  | some d, .loop => if d.params = [] then none else some (.repeatArity site.name d.params.length)

def Site.warnings (definitions : List Definition) (procedure : Name) (site : Site) :
    List Warning :=
  (site.complaint? definitions).toList.map (⟨procedure, site.pos, ·⟩)

def Complaint.isArity : Complaint → Bool
  | arity .. | repeatArity .. => true
  | _ => false

def Complaint.isMisuse : Complaint → Bool
  | undefined _ | arity .. | repeatArity .. => true
  | _ => false

theorem mem_site_warnings {definitions : List Definition} {procedure : Name} {site : Site}
    {w : Warning} : w ∈ site.warnings definitions procedure ↔
      site.complaint? definitions = some w.complaint ∧ w.pos = site.pos ∧
        w.procedure = procedure := by
  obtain ⟨name, pos, complaint⟩ := w
  simp only [Site.warnings, List.mem_map, Option.mem_toList, Warning.mk.injEq]
  constructor
  · rintro ⟨c, found, rfl, rfl, rfl⟩
    exact ⟨found, rfl, rfl⟩
  · rintro ⟨found, rfl, rfl⟩
    exact ⟨complaint, found, rfl, rfl, rfl⟩

namespace Lint
variable (definitions : List Definition)

theorem callWarnings_eq (procedure : Name) (pos : Position) (name : Name) (got : Nat) :
    callWarnings definitions procedure pos name got =
      Site.warnings definitions procedure ⟨pos, name, .call got⟩ := by
  unfold callWarnings Site.warnings Site.complaint?
  cases definition? definitions name with
  | none => rfl
  | some d => by_cases fits : d.params.length = got <;> simp [fits]

theorem loopCallWarnings_eq (procedure : Name) (pos : Position) (name : Name) :
    loopCallWarnings definitions procedure pos name =
      Site.warnings definitions procedure ⟨pos, name, .loop⟩ := by
  unfold loopCallWarnings Site.warnings Site.complaint?
  cases definition? definitions name with
  | none => rfl
  | some d => by_cases fits : d.params = [] <;> simp [fits]

mutual

theorem expr_eq_sites (procedure : Name) : ∀ e : Expr,
    expr definitions procedure e = e.sites.flatMap (Site.warnings definitions procedure)
  | .number .. | .param .. | .var .. => rfl
  | .negate _ e | .group _ e | .random _ e => expr_eq_sites procedure e
  | .binary _ left right => by
    rw [expr, expr_eq_sites procedure left, expr_eq_sites procedure right, sites_binary,
      List.flatMap_append]
  | .call pos name args => by
    rw [expr, callWarnings_eq, exprs_eq_sites procedure args]
    rfl

theorem exprs_eq_sites (procedure : Name) : ∀ es : List Expr,
    exprs definitions procedure es = (sitesOfArgs es).flatMap (Site.warnings definitions procedure)
  | [] => rfl
  | e :: rest => by
    rw [exprs, expr_eq_sites procedure e, exprs_eq_sites procedure rest, sitesOfArgs_cons,
      List.flatMap_append]

end

/-- Warnings that say the same of the sites, whoever calls. -/
def Reports (warnings : List Warning) (sites : List Site) : Prop :=
  (∀ w ∈ warnings, w.complaint.isMisuse = true →
    ∃ site ∈ sites, site.complaint? definitions = some w.complaint ∧ w.pos = site.pos) ∧
  ∀ site ∈ sites, ∀ c, site.complaint? definitions = some c →
    ∃ w ∈ warnings, w.complaint = c ∧ w.pos = site.pos

variable {definitions}

namespace Reports
variable {ws vs : List Warning} {sites others : List Site}

theorem append (first : Reports definitions ws sites) (second : Reports definitions vs others) :
    Reports definitions (ws ++ vs) (sites ++ others) := by
  refine ⟨fun w member misuse => ?_, fun site member c said => ?_⟩
  · rcases List.mem_append.mp member with here | there
    · obtain ⟨site, found, same⟩ := first.1 w here misuse
      exact ⟨site, List.mem_append_left _ found, same⟩
    · obtain ⟨site, found, same⟩ := second.1 w there misuse
      exact ⟨site, List.mem_append_right _ found, same⟩
  · rcases List.mem_append.mp member with here | there
    · obtain ⟨w, found, same⟩ := first.2 site here c said
      exact ⟨w, List.mem_append_left _ found, same⟩
    · obtain ⟨w, found, same⟩ := second.2 site there c said
      exact ⟨w, List.mem_append_right _ found, same⟩

theorem of_sites (procedure : Name) (sites : List Site) :
    Reports definitions (sites.flatMap (Site.warnings definitions procedure)) sites := by
  refine ⟨fun w member _ => ?_, fun site member c said => ?_⟩
  · obtain ⟨site, found, warned⟩ := List.mem_flatMap.mp member
    obtain ⟨said, at_, -⟩ := mem_site_warnings.mp warned
    exact ⟨site, found, said, at_⟩
  · refine ⟨⟨procedure, site.pos, c⟩, List.mem_flatMap.mpr ⟨site, member, ?_⟩, rfl, rfl⟩
    exact mem_site_warnings.mpr ⟨said, rfl, rfl⟩

theorem of_others (harmless : ∀ w ∈ ws, w.complaint.isMisuse = false) :
    Reports definitions ws [] := by
  refine ⟨fun w member misuse => ?_, nofun⟩
  rw [harmless w member] at misuse
  contradiction

theorem congr (reports : Reports definitions ws sites) (same : ∀ w, w ∈ vs ↔ w ∈ ws) :
    Reports definitions vs sites := by
  refine ⟨fun w member => reports.1 w ((same w).mp member), fun site member c said => ?_⟩
  obtain ⟨w, found, rest⟩ := reports.2 site member c said
  exact ⟨w, (same w).mpr found, rest⟩

end Reports

theorem expr_reports (procedure : Name) (e : Expr) :
    Reports definitions (expr definitions procedure e) e.sites := by
  rw [expr_eq_sites]
  exact .of_sites procedure e.sites

mutual

theorem statement_reports (procedure : Name) : ∀ s : Stmt,
    Reports definitions (statement definitions procedure s) s.sites
  | .define _ name _ _ body => statements_report name body
  | .loop _ count body => (expr_reports procedure count).append (statements_report procedure body)
  | .loopCall pos count target => by
    have target : Reports definitions _ [⟨pos, target, .loop⟩] := .of_sites procedure _
    have both := target.append (expr_reports procedure count)
    refine both.congr fun w => ?_
    rw [statement, loopCallWarnings_eq, List.flatMap_singleton, List.mem_append, List.mem_append,
      or_comm]
  | .test _ left _ right body => by
    rw [statement, List.append_assoc]
    exact (expr_reports procedure left).append
      ((expr_reports procedure right).append (statements_report procedure body))
  | .output pos value => by
    refine Reports.append (.of_others ?_) (expr_reports procedure value)
    intro w member
    split at member
    · obtain rfl := List.mem_singleton.mp member
      rfl
    · simp at member
  | .call pos name args => expr_reports procedure (.call pos name args)
  | .make _ _ e | .move _ _ e | .turn _ _ e | .setHeading _ e => expr_reports procedure e
  | .setXY _ x y => (expr_reports procedure x).append (expr_reports procedure y)
  | .pen .. | .home _ | .stop _ => .of_others nofun

theorem statements_report (procedure : Name) : ∀ ss : List Stmt,
    Reports definitions (statements definitions procedure ss) (sitesOf ss)
  | [] => .of_others nofun
  | s :: rest => by
    rw [statements, sitesOf]
    refine (statement_reports procedure s).append ?_
    split
    · refine .of_others fun w member => ?_
      obtain ⟨t, -, rfl⟩ := List.mem_map.mp member
      rfl
    · exact statements_report procedure rest

end

end Lint

theorem expr_sites_placed (e : Expr) : (e.sites.map Site.pos).Sublist (placed e.lexemes) := by
  rw [Expr.sites, List.map_map]
  exact expr_calls_placed e

theorem args_sites_placed (es : List Expr) :
    ((sitesOfArgs es).map Site.pos).Sublist (placed (lexemesOfArgs es)) := by
  rw [sitesOfArgs, List.map_map]
  exact args_calls_placed es

mutual

theorem stmt_sites_placed : ∀ s : Stmt, (s.sites.map Site.pos).Sublist (placed s.lexemes)
  | .define _ _ _ params body => by
    have block := (block_sites_placed body .endDefine).trans (List.sublist_append_right
      (placed (params.map (⟨.paramName, .sigiled ·, none⟩))) _)
    rw [← placed_append] at block
    exact .cons _ (.cons _ block)
  | .loop _ count body => by
    rw [Stmt.sites, Stmt.lexemes, placed_opening, placed_append, placed_inner, List.map_append]
    exact .cons _ ((expr_sites_placed count).append (block_sites_placed body .rightBracket))
  | .loopCall pos count _ => by
    rw [Stmt.sites, Stmt.lexemes, placed_opening, placed_append]
    exact .cons_cons pos ((expr_sites_placed count).trans (List.sublist_append_left _ _))
  | .test _ left _ right body => by
    rw [Stmt.sites, Stmt.lexemes, placed_opening, placed_append, placed_inner, placed_append,
      placed_inner, List.map_append, List.map_append]
    exact .cons _ ((expr_sites_placed left).append
      ((expr_sites_placed right).append (block_sites_placed body .rightBracket)))
  | .make _ _ e => .cons _ (expr_sites_placed e)
  | .move _ _ e | .turn _ _ e | .setHeading _ e | .output _ e => .cons _ (expr_sites_placed e)
  | .setXY _ x y => by
    rw [Stmt.sites, Stmt.lexemes, placed_opening, placed_append, List.map_append]
    exact .cons _ ((expr_sites_placed x).append (expr_sites_placed y))
  | .call pos _ args => .cons_cons pos (args_sites_placed args)
  | .pen .. | .home _ | .stop _ => List.nil_sublist _

theorem sites_placed : ∀ ss : List Stmt, ((sitesOf ss).map Site.pos).Sublist (placed (lexemesOf ss))
  | [] => .slnil
  | s :: rest => by
    rw [sitesOf, lexemesOf, List.map_append, placed_append]
    refine (stmt_sites_placed s).append ?_
    split
    · exact List.nil_sublist _
    · exact sites_placed rest

theorem block_sites_placed (body : List Stmt) (close : TokenKind) :
    ((sitesOf body).map Site.pos).Sublist (placed (lexemesOf body ++ [.inner close])) := by
  rw [placed_append]
  exact (sites_placed body).trans (List.sublist_append_left _ _)

end

theorem sites_nodup {source : Bytes} {p : Program} (accepted : parse source = .ok p) :
    ((sitesOf p.statements).map Site.pos).Nodup := by
  have places : (placed (lexemesOf p.statements)).Nodup := by
    refine (places_increasing accepted).imp fun {a b} less same => ?_
    rw [same] at less
    exact Nat.lt_irrefl _ less
  exact places.sublist (sites_placed p.statements)

theorem site_eq_of_pos {source : Bytes} {p : Program} (accepted : parse source = .ok p)
    {a b : Site} (first : a ∈ sitesOf p.statements) (second : b ∈ sitesOf p.statements)
    (same : a.pos = b.pos) : a = b :=
  List.inj_on_of_nodup_map (sites_nodup accepted) first second same

def Distinct (definitions : List Definition) : Prop :=
  ∀ d ∈ definitions, definition? definitions d.name = some d

theorem distinct_of_no_redefinition {definitions : List Definition}
    (once : ∀ w ∈ Lint.redefinitions definitions, ∀ name first,
      w.complaint ≠ .redefined name first) : Distinct definitions := by
  intro d member
  cases found : definition? definitions d.name with
  | none =>
    have absent := List.find?_eq_none.mp found d member
    simp at absent
  | some first =>
    by_contra other
    have differs : first ≠ d := fun same => other (by rw [same])
    refine once ⟨d.name, d.pos, .redefined d.name first.pos⟩ ?_ d.name first.pos rfl
    refine List.mem_filterMap.mpr ⟨d, member, ?_⟩
    simp [found, differs]

namespace Lint

def Covers (definitions : List Definition) (sites : List Site) (ss : List Stmt) : Prop :=
  sitesOf ss ⊆ sites ∧ definitionsOf ss ⊆ definitions

def Defined (definitions : List Definition) (sites : List Site) (p : Procedure) : Prop :=
  (∃ d ∈ definitions, d.name = p.name ∧ d.params = p.params) ∧ Covers definitions sites p.body

def Clean (definitions : List Definition) (sites : List Site) (pos : Position) : Prop :=
  ∃ site ∈ sites, site.pos = pos ∧ site.complaint? definitions = none

def Blamed (definitions : List Definition) (sites : List Site) (cause : Cause) (pos : Position) :
    Prop :=
  ∃ site ∈ sites, site.pos = pos ∧ ∃ c, site.complaint? definitions = some c ∧
    c.isArity = true ∧ c.message = cause.message

/-- A run keeps to the sites and definitions of a program. It enters a procedure only from a site
    without complaint, and fails for want of arguments only at one with such a complaint. -/
def policy (definitions : List Definition) (sites : List Site) : Policy where
  task
    | .statements ss => Covers definitions sites ss
    | .statement s => s.sites ⊆ sites ∧ s.definitions ⊆ definitions
    | .rounds _ body _ _ => Covers definitions sites body
    | .callRounds pos p _ _ => Defined definitions sites p ∧ Clean definitions sites pos
    | .operand _ e => e.sites ⊆ sites
    | .expr e => e.sites ⊆ sites
    | .arguments es => sitesOfArgs es ⊆ sites
    | .call pos name args => ⟨pos, name, .call args.length⟩ ∈ sites ∧ sitesOfArgs args ⊆ sites
    | .invoke p _ pos => Defined definitions sites p ∧ Clean definitions sites pos
  result
    | .statement s, signal => terminates s = true → signal ≠ .finished
    | _, _ => True
  procedure := Defined definitions sites
  frame f := Clean definitions sites f.pos
  failure cause pos := cause.kind = .arityMismatch → Blamed definitions sites cause pos

section
variable {definitions : List Definition} {sites : List Site} {α : Type} {post : α → Prop}

theorem harmless {cause : Cause} (pos : Position) (other : cause.kind ≠ .arityMismatch) :
    (policy definitions sites).failure cause pos :=
  fun mismatch => absurd mismatch other

theorem found_obeys (value : Option α) {missing : Cause} (pos : Position)
    (other : missing.kind ≠ .arityMismatch) :
    (Script.found value missing pos).Obeys (policy definitions sites) fun _ => True := by
  cases value with
  | some v => exact trivial
  | none => exact harmless pos other

theorem lookup_obeys {name : Name} {pos : Position} {next : Procedure → Script α}
    (distinct : Distinct definitions)
    (found : ∀ p d, p.name = name → definition? definitions name = some d → d.params = p.params →
      Defined definitions sites p → (next p).Obeys (policy definitions sites) post) :
    (Script.lookup name pos next).Obeys (policy definitions sites) post := by
  intro env knows
  cases known : env.procedure? name with
  | none =>
    simp only [known]
    exact harmless pos (by simp [Cause.kind])
  | some p =>
    simp only [known]
    obtain ⟨named, defined⟩ := knows name p known
    obtain ⟨d, member, sameName, sameParams⟩ := defined.1
    have first := distinct d member
    rw [sameName, named] at first
    exact found p d named first sameParams defined

theorem finish_obeys {t : Task} {post : t.Result → Prop}
    (task : (policy definitions sites).task t) (all : ∀ v, post v) :
    (Script.finish t).Obeys (policy definitions sites) post :=
  ⟨task, fun v _ => all v⟩

theorem statement_obeys (distinct : Distinct definitions) {s : Stmt} (inside : s.sites ⊆ sites)
    (defined : s.definitions ⊆ definitions) :
    s.script.Obeys (policy definitions sites)
      fun signal => terminates s = true → signal ≠ .finished := by
  cases s with
  | define pos name namePos params body =>
    obtain ⟨first, others⟩ := List.cons_subset.mp defined
    exact ⟨⟨⟨_, first, rfl, rfl⟩, inside, others⟩, nofun⟩
  | make pos name value => exact ⟨inside, fun _ _ => ⟨trivial, nofun⟩⟩
  | loop pos count body =>
    obtain ⟨first, block⟩ := List.append_subset.mp inside
    exact ⟨first, fun _ _ => finish_obeys ⟨block, defined⟩ fun _ => nofun⟩
  | loopCall pos count target =>
    obtain ⟨here, first⟩ := List.cons_subset.mp inside
    refine ⟨first, fun _ _ => lookup_obeys distinct fun p d named found params procedure => ?_⟩
    by_cases empty : p.params = []
    · have admitted : (p.arity == 0) = true := by simp [Procedure.arity, empty]
      rw [if_pos admitted]
      refine finish_obeys ⟨procedure, _, here, rfl, ?_⟩ fun _ => nofun
      simp [Site.complaint?, found, params, empty]
    · have refused : ¬(p.arity == 0) = true := by simp [Procedure.arity, empty]
      rw [if_neg refused]
      refine fun _ => ⟨_, here, rfl, .repeatArity target d.params.length, ?_, rfl, ?_⟩
      · simp [Site.complaint?, found, params, empty]
      · rw [Complaint.message, named, Procedure.arity, params]
  | pen pos down => exact ⟨trivial, nofun⟩
  | move pos forward distance => exact ⟨inside, fun _ _ => ⟨trivial, nofun⟩⟩
  | turn pos left angle => exact ⟨inside, fun _ _ => ⟨trivial, nofun⟩⟩
  | home pos => exact ⟨trivial, nofun⟩
  | setXY pos x y =>
    obtain ⟨first, second⟩ := List.append_subset.mp inside
    exact ⟨first, fun _ _ => ⟨second, fun _ _ => ⟨trivial, nofun⟩⟩⟩
  | setHeading pos angle => exact ⟨inside, fun _ _ => ⟨trivial, nofun⟩⟩
  | call pos name args => exact ⟨List.cons_subset.mp inside, fun _ _ => nofun⟩
  | test pos left op right body =>
    obtain ⟨first, later⟩ := List.append_subset.mp inside
    obtain ⟨second, block⟩ := List.append_subset.mp later
    refine ⟨first, fun l _ => ⟨second, fun r _ => ?_⟩⟩
    dsimp only
    split
    · exact finish_obeys ⟨block, defined⟩ fun _ => nofun
    · exact nofun
  | stop pos => exact fun _ => nofun
  | output pos value => exact ⟨inside, fun _ _ _ => nofun⟩

theorem expr_obeys {e : Expr} (inside : e.sites ⊆ sites) :
    e.script.Obeys (policy definitions sites) fun _ => True := by
  cases e with
  | number pos value => exact trivial
  | param pos name => exact fun env _ => found_obeys _ pos (by simp [Cause.kind])
  | var pos name => exact fun env _ => found_obeys _ pos (by simp [Cause.kind])
  | negate pos operand => exact ⟨inside, fun _ _ => trivial⟩
  | group pos inner => exact ⟨inside, fun _ _ => trivial⟩
  | random pos limit => exact ⟨inside, fun _ _ _ => trivial⟩
  | binary op left right =>
    rw [sites_binary] at inside
    obtain ⟨first, second⟩ := List.append_subset.mp inside
    exact ⟨first, fun _ _ => ⟨second, fun _ _ => trivial⟩⟩
  | call pos name args =>
    refine ⟨List.cons_subset.mp inside, fun result _ => ?_⟩
    exact found_obeys result pos (by simp [Cause.kind])

theorem call_obeys (distinct : Distinct definitions) {pos : Position} {name : Name}
    {args : List Expr} (here : ⟨pos, name, .call args.length⟩ ∈ sites)
    (inside : sitesOfArgs args ⊆ sites) :
    (Task.call pos name args).script.Obeys (policy definitions sites) fun _ => True := by
  refine lookup_obeys distinct fun p d named found params procedure => ?_
  by_cases fits : args.length = p.params.length
  · have admitted : (args.length == p.arity) = true := by simpa [Procedure.arity] using fits
    rw [if_pos admitted]
    refine ⟨inside, fun values _ => finish_obeys ⟨procedure, _, here, rfl, ?_⟩ fun _ => trivial⟩
    simp [Site.complaint?, found, params, fits]
  · have refused : ¬(args.length == p.arity) = true := by simpa [Procedure.arity] using fits
    rw [if_neg refused]
    refine fun _ => ⟨_, here, rfl, .arity name d.params.length args.length, ?_, rfl, ?_⟩
    · simp [Site.complaint?, found, params, Ne.symm fits]
    · rw [Complaint.message, named, Procedure.arity, params]

theorem policy_sound (distinct : Distinct definitions) : (policy definitions sites).Sound where
  quota _ pos := harmless pos (by simp [Cause.kind])
  cancelled pos := harmless pos (by simp [Cause.kind])
  recursion _ pos := harmless pos (by simp [Cause.kind])
  script t task := by
    cases t with
    | statements ss =>
      cases ss with
      | nil => exact trivial
      | cons s rest =>
        obtain ⟨inside, defined⟩ := task
        obtain ⟨first, later⟩ := List.append_subset.mp inside
        obtain ⟨definesFirst, definesLater⟩ := List.append_subset.mp defined
        refine ⟨⟨first, definesFirst⟩, fun signal ended => ?_⟩
        cases signal with
        | finished =>
          have goes_on : terminates s = false := by
            by_contra terminal
            exact ended (by simpa using terminal) rfl
          rw [goes_on] at later
          exact finish_obeys ⟨later, definesLater⟩ fun _ => trivial
        | stop => exact trivial
        | output value => exact trivial
    | statement s => exact statement_obeys distinct task.1 task.2
    | rounds pos body total i =>
      rw [Task.script]
      split
      · refine ⟨task, fun signal _ => ?_⟩
        cases signal with
        | finished => exact finish_obeys task fun _ => trivial
        | stop => exact trivial
        | output value => exact trivial
      · exact trivial
    | callRounds pos p total i =>
      rw [Task.script]
      split
      · exact ⟨task, fun _ _ => finish_obeys task fun _ => trivial⟩
      · exact trivial
    | operand what e =>
      refine ⟨task, fun v _ => ?_⟩
      dsimp only
      split
      · exact trivial
      · exact harmless e.pos (by simp [Cause.kind])
    | expr e => exact expr_obeys task
    | arguments es =>
      cases es with
      | nil => exact trivial
      | cons e rest =>
        have inside : sitesOfArgs (e :: rest) ⊆ sites := task
        rw [sitesOfArgs_cons] at inside
        obtain ⟨first, later⟩ := List.append_subset.mp inside
        exact ⟨first, fun _ _ => ⟨later, fun _ _ => trivial⟩⟩
    | call pos name args => exact call_obeys distinct task.1 task.2
    | invoke p params pos =>
      refine ⟨task.1.2, task.2, fun signal _ => ?_⟩
      cases signal with
      | finished => exact trivial
      | stop => exact ⟨trivial, trivial⟩
      | output value => exact ⟨trivial, trivial⟩

end

theorem redefinitions_harmless (definitions : List Definition) :
    ∀ w ∈ redefinitions definitions, w.complaint.isMisuse = false := by
  intro w member
  obtain ⟨d, -, said⟩ := List.mem_filterMap.mp member
  split at said
  · split at said
    · simp at said
    · obtain rfl := Option.some.inj said
      rfl
  · simp at said

end Lint

theorem mem_warnings {p : Program} {w : Warning} :
    w ∈ p.warnings ↔ w ∈ Lint.redefinitions (definitionsOf p.statements) ∨
      w ∈ Lint.statements (definitionsOf p.statements) topLevelName p.statements := by
  rw [Program.warnings, List.mem_mergeSort, List.mem_append]

theorem warnings_report (p : Program) :
    Lint.Reports (definitionsOf p.statements) p.warnings (sitesOf p.statements) := by
  have redefined : Lint.Reports (definitionsOf p.statements) _ [] :=
    .of_others (Lint.redefinitions_harmless (definitionsOf p.statements))
  refine (redefined.append (Lint.statements_report topLevelName p.statements)).congr fun w => ?_
  rw [mem_warnings, List.mem_append]

theorem start_holds (definitions : List Definition) (sites : List Site) (random : Random.Stream) :
    (Lint.policy definitions sites).Holds (Session.start random).machine :=
  ⟨nofun, nofun⟩

/-- In a program that defines no procedure twice, run in a fresh session: a failure for want of
    arguments is reported by the linter where it happens, and no procedure is entered from a place
    where the linter says that the call cannot succeed. -/
theorem call_warnings_agree_with_runs {source : Bytes} {p : Program}
    (accepted : parse source = .ok p)
    (once : ∀ w ∈ p.warnings, ∀ name first, w.complaint ≠ .redefined name first)
    (random : Random.Stream) (limits : Limits) (cancelledFrom : Option Nat) :
    (∀ fuel e m, (Session.start random).evaluate fuel limits cancelledFrom p = .failed e m →
      e.cause.kind = .arityMismatch →
        ∃ frame rest, e.frames = frame :: rest ∧
          ∃ w ∈ p.warnings, w.pos = frame.pos ∧ w.complaint.isArity = true ∧
            w.complaint.message = e.cause.message) ∧
    (p.warnings = [] → ∀ fuel e m,
      (Session.start random).evaluate fuel limits cancelledFrom p = .failed e m →
        e.cause.kind ≠ .arityMismatch) ∧
    ∀ n x, (Task.statements p.statements).Passes ⟨limits, cancelledFrom, p.source⟩ n
        (Session.start random).machine x →
      ∀ f ∈ x.calls.frames, ∀ w ∈ p.warnings, w.pos = f.pos → w.complaint.isMisuse = false := by
  have distinct := distinct_of_no_redefinition fun w member =>
    once w (mem_warnings.mpr (.inl member))
  have sound : (Lint.policy (definitionsOf p.statements) (sitesOf p.statements)).Sound :=
    Lint.policy_sound distinct
  have task : (Lint.policy (definitionsOf p.statements) (sitesOf p.statements)).task
      (.statements p.statements) := ⟨List.Subset.refl _, List.Subset.refl _⟩
  have start := start_holds (definitionsOf p.statements) (sitesOf p.statements) random
  have blamed : ∀ fuel e m,
      (Session.start random).evaluate fuel limits cancelledFrom p = .failed e m →
      e.cause.kind = .arityMismatch → ∃ frame rest, e.frames = frame :: rest ∧
        ∃ w ∈ p.warnings, w.pos = frame.pos ∧ w.complaint.isArity = true ∧
          w.complaint.message = e.cause.message := by
    intro fuel e m failed mismatch
    have same : Task.run fuel ⟨limits, cancelledFrom, p.source⟩ (.statements p.statements)
        (Session.start random).machine = .failed e m := failed
    have meets := sound.run ⟨limits, cancelledFrom, p.source⟩ fuel _ _ task start
    rw [same] at meets
    obtain ⟨⟨cause, text, pos, calls, rfl, permitted⟩, -⟩ := meets
    obtain ⟨site, member, at_, c, said, arity, message⟩ := permitted mismatch
    obtain ⟨w, warned, rfl, place⟩ := (warnings_report p).2 site member c said
    obtain ⟨frame, rest, frames, here⟩ : ∃ frame rest,
        (RuntimeError.at cause text pos calls).frames = frame :: rest ∧ frame.pos = pos := by
      cases calls <;> exact ⟨_, _, rfl, rfl⟩
    exact ⟨frame, rest, frames, w, warned, by rw [place, at_, here], arity, message⟩
  refine ⟨blamed, ?_, ?_⟩
  · intro clean fuel e m failed mismatch
    obtain ⟨-, -, -, w, warned, -⟩ := blamed fuel e m failed mismatch
    rw [clean] at warned
    contradiction
  · intro n x passes f member w warned place
    obtain ⟨site, known, here, unblamed⟩ :=
      (sound.passes n _ _ x task start passes).frames f member
    by_contra misuse
    obtain ⟨other, listed, said, at_⟩ := (warnings_report p).1 w warned (by simpa using misuse)
    obtain rfl := site_eq_of_pos accepted known listed (by rw [here, ← place, at_])
    rw [unblamed] at said
    contradiction

def lateHeader : Program :=
  ⟨[.define ⟨0, 1, 1⟩ [103] ⟨3, 1, 4⟩ [] [.call ⟨5, 1, 6⟩ [102] []],
    .define ⟨11, 1, 12⟩ [102] ⟨14, 1, 15⟩ [[97]] [], .call ⟨23, 1, 24⟩ [103] []],
    utf8 "to g f end to f :a end g"⟩

def lateHeaderMachine : Machine :=
  (((Session.start ⟨0, 0⟩).machine.tick.define
    ⟨[103], [], [.call ⟨5, 1, 6⟩ [102] []], ⟨0, 1, 1⟩⟩).tick.define
    ⟨[102], [[97]], [], ⟨11, 1, 12⟩⟩).tick

theorem lateHeader_enters :
    ∃ x, (Task.statements lateHeader.statements).Passes ⟨.none, none, lateHeader.source⟩ 7
      (Session.start ⟨0, 0⟩).machine x ∧ x.calls.frames = [⟨[103], ⟨23, 1, 24⟩⟩] := by
  refine ⟨lateHeaderMachine.called ⟨[103], [], [.call ⟨5, 1, 6⟩ [102] []], ⟨0, 1, 1⟩⟩ []
    ⟨23, 1, 24⟩, ?_, rfl⟩
  have entered : (Task.call ⟨23, 1, 24⟩ [103] []).Passes ⟨.none, none, lateHeader.source⟩ 3
      lateHeaderMachine (lateHeaderMachine.called
        ⟨[103], [], [.call ⟨5, 1, 6⟩ [102] []], ⟨0, 1, 1⟩⟩ [] ⟨23, 1, 24⟩) :=
    .inspected (.behind rfl (.within (.called rfl (.here _ _))))
  exact .stepped rfl (.behind rfl (.within (.stepped rfl (.behind rfl (.within
    (.stepped rfl (.within (.within entered))))))))

/-- The run fails in the procedure that makes the call, where the linter expects it, and the call
    of that procedure is not blamed. -/
theorem call_warnings_agree_with_runs_of_late_header :
    parse (utf8 "to g f end to f :a end g") = .ok lateHeader ∧
      (∃ fuel e m, (Session.start ⟨0, 0⟩).evaluate fuel .none none lateHeader = .failed e m ∧
        e.cause.kind = .arityMismatch ∧
        ∃ frame rest, e.frames = frame :: rest ∧
          ∃ w ∈ lateHeader.warnings, w.pos = frame.pos ∧ w.complaint.isArity = true ∧
            w.complaint.message = e.cause.message) ∧
      ∃ n x, (Task.statements lateHeader.statements).Passes ⟨.none, none, lateHeader.source⟩ n
          (Session.start ⟨0, 0⟩).machine x ∧ x.calls.frames = [⟨[103], ⟨23, 1, 24⟩⟩] ∧
        ∀ f ∈ x.calls.frames, ∀ w ∈ lateHeader.warnings, w.pos = f.pos →
          w.complaint.isMisuse = false := by
  have accepted : parse (utf8 "to g f end to f :a end g") = .ok lateHeader := by decide +kernel
  have once : ∀ w ∈ lateHeader.warnings, ∀ name first, w.complaint ≠ .redefined name first := by
    have unrepeated : Lint.redefinitions (definitionsOf lateHeader.statements) = [] := rfl
    have one : Lint.statements (definitionsOf lateHeader.statements) topLevelName
        lateHeader.statements = [⟨[103], ⟨5, 1, 6⟩, .arity [102] 1 0⟩] := rfl
    intro w member
    rw [mem_warnings, unrepeated, one] at member
    obtain rfl : w = _ := by simpa using member
    nofun
  obtain ⟨blamed, -, entered⟩ := call_warnings_agree_with_runs accepted once ⟨0, 0⟩ .none none
  refine ⟨accepted, ?_, ?_⟩
  · obtain ⟨e, m, failed, mismatch⟩ : ∃ e m,
        (Session.start ⟨0, 0⟩).evaluate 20 .none none lateHeader = .failed e m ∧
          e.cause.kind = .arityMismatch := ⟨_, _, rfl, rfl⟩
    exact ⟨20, e, m, failed, mismatch, blamed 20 e m failed mismatch⟩
  · obtain ⟨x, passes, frames⟩ := lateHeader_enters
    exact ⟨7, x, passes, frames, entered 7 x passes⟩

end TurtleLogo
