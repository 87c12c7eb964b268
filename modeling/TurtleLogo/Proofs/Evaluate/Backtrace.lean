import TurtleLogo.Proofs.Evaluate.Terrain
import TurtleLogo.Proofs.Program.Nodes

/-!
Backtraces. A run is outside all procedures or in the body of one of those that it may call, and a
node that it evaluates lies directly there. The calls in progress lead from there to the outside,
each made by a node that lies directly in the body of a procedure with the name of the next frame.
So the frames of an error are the places where it was raised and where the calls were made, and the
error leaves the run as it was raised.
-/
namespace TurtleLogo
open Text

def Cause.missingParameter? : Cause → Option Name
  | undefinedParameter name => some name
  | _ => none

namespace Ground
variable (g : Ground)

def Site (r : Region) (f : CallFrame) : Prop := ∃ node ∈ g.nodesIn r, node.Calls f

def Defines (q : Procedure) : Prop := q ∈ g.procedures ∧ proceduresOf q.body ⊆ g.procedures

/-- The stacks of a run in a region: every call was made directly in the region before it, and its
    frame binds the parameters of the procedure. -/
inductive Inside : Region → List CallFrame → List Frame → Prop where
  | outside : Inside none [] []
  | body {r : Region} {calls : List CallFrame} {frames : List Frame} {q : Procedure}
      {pos : Position} {values : List Float} (caller : Inside r calls frames)
      (defined : q ∈ g.procedures) (site : g.Site r ⟨q.name, pos⟩)
      (fits : values.length = q.params.length) :
      Inside (some q) (⟨q.name, pos⟩ :: calls)
        (⟨q.name, Evaluate.bindParams q.params values⟩ :: frames)

/-- A failure happens at a node of the region. For want of a parameter it happens at a reference to
    it, and only if the header of the region does not declare it. -/
def Fails (r : Region) (cause : Cause) (pos : Position) : Prop :=
  (∃ node ∈ g.nodesIn r, node.pos = pos) ∧
    ∀ name, cause = .undefinedParameter name →
      .expr (.param pos name) ∈ g.nodesIn r ∧ name ∉ r.params

def terrain : Terrain Region where
  body := some
  task r
    | .statements ss => nodesOf ss ⊆ g.nodesIn r ∧ proceduresOf ss ⊆ g.procedures
    | .statement s =>
      .stmt s ∈ g.nodesIn r ∧ s.inner ⊆ g.nodesIn r ∧ s.procedures ⊆ g.procedures
    | .rounds pos body _ _ =>
      (∃ node ∈ g.nodesIn r, node.pos = pos) ∧ nodesOf body ⊆ g.nodesIn r ∧
        proceduresOf body ⊆ g.procedures
    | .callRounds pos q _ _ => g.Defines q ∧ q.params = [] ∧ g.Site r ⟨q.name, pos⟩
    | .operand _ e => e.nodes ⊆ g.nodesIn r
    | .expr e => e.nodes ⊆ g.nodesIn r
    | .arguments es => argumentNodes es ⊆ g.nodesIn r
    | .call pos name args => g.Site r ⟨name, pos⟩ ∧ argumentNodes args ⊆ g.nodesIn r
    | .invoke q params pos =>
      g.Defines q ∧ g.Site r ⟨q.name, pos⟩ ∧
        ∃ values : List Float, values.length = q.params.length ∧
          params = Evaluate.bindParams q.params values
  result
    | .arguments es, values => values.length = es.length
    | _, _ => True
  procedure := g.Defines
  stack := g.Inside
  failure := g.Fails

end Ground

theorem bindParams_get {params : List Name} {values : List Float} {name : Name}
    (declared : name ∈ params) (fits : values.length = params.length) :
    ∃ value, (Evaluate.bindParams params values).get? name = some value := by
  have bound : ∀ (params : List Name) (values : List Float) (t : Table Float),
      values.length = params.length → name ∈ params ∨ (∃ value, t.get? name = some value) →
      ∃ value, ((params.zip values).foldl (fun t (entry : Name × Float) =>
        t.set entry.1 entry.2) t).get? name = some value := by
    intro params
    induction params with
    | nil =>
      intro values t _ known
      rcases known with absent | known
      · simp at absent
      · exact known
    | cons first params ih =>
      intro values t fits known
      cases values with
      | nil => simp at fits
      | cons value values =>
        apply ih values (t.set first value) (by simpa using fits)
        rcases known with declared | ⟨old, known⟩
        · rcases List.mem_cons.mp declared with rfl | later
          · exact .inr ⟨value, by simp [Table.get_set]⟩
          · exact .inl later
        · right
          rw [Table.get_set]
          by_cases same : name = first
          · exact ⟨value, if_pos same⟩
          · exact ⟨old, by rw [if_neg same, known]⟩
  exact bound params values [] fits (.inl declared)

namespace Ground
variable {g : Ground} {r : Region}

theorem Inside.innermost {calls : List CallFrame} {frames : List Frame} {name : Name}
    (inside : g.Inside r calls frames) (declared : name ∈ r.params) :
    ∃ q values rest value, r = some q ∧ q ∈ g.procedures ∧ values.length = q.params.length ∧
      frames = ⟨q.name, Evaluate.bindParams q.params values⟩ :: rest ∧
      (Evaluate.bindParams q.params values).get? name = some value := by
  cases inside with
  | outside => simp [Region.params] at declared
  | @body _ _ rest q _ values caller defined site fits =>
    obtain ⟨value, bound⟩ := bindParams_get declared fits
    exact ⟨q, values, rest, value, rfl, defined, fits, rfl, bound⟩

theorem fails_of_place {cause : Cause} {pos : Position}
    (place : ∃ node ∈ g.nodesIn r, node.pos = pos) (other : cause.missingParameter? = none) :
    g.Fails r cause pos := by
  refine ⟨place, ?_⟩
  intro name same
  rw [same] at other
  cases other

theorem Site.place {f : CallFrame} (site : g.Site r f) :
    ∃ node ∈ g.nodesIn r, node.pos = f.pos := by
  obtain ⟨node, member, calls⟩ := site
  exact ⟨node, member, calls.1⟩

theorem may_refuse {pos : Position} (place : ∃ node ∈ g.nodesIn r, node.pos = pos) :
    g.terrain.MayRefuse r pos :=
  ⟨fun _ => fails_of_place place rfl, fails_of_place place rfl⟩

section
variable {α : Type} {post : α → Prop}

theorem lookup_keeps {name : Name} {pos : Position} {next : Procedure → Script α}
    (place : ∃ node ∈ g.nodesIn r, node.pos = pos)
    (found : ∀ q, q.name = name → g.Defines q → (next q).Keeps g.terrain r post) :
    (Script.lookup name pos next).Keeps g.terrain r post := by
  intro env calls knows _
  cases known : env.procedure? name with
  | none =>
    simp only [known]
    exact fails_of_place place rfl
  | some q =>
    simp only [known]
    obtain ⟨named, defined⟩ := knows name q known
    exact found q named defined

theorem finish_keeps {t : Task} {post : t.Result → Prop} (task : g.terrain.task r t)
    (all : ∀ v, post v) : (Script.finish t).Keeps g.terrain r post :=
  ⟨task, fun v _ => all v⟩

end

theorem statement_keeps {s : Stmt} (here : .stmt s ∈ g.nodesIn r) (inner : s.inner ⊆ g.nodesIn r)
    (defined : s.procedures ⊆ g.procedures) :
    s.script.Keeps g.terrain r fun _ => True := by
  have place : ∃ node ∈ g.nodesIn r, node.pos = s.pos := ⟨_, here, rfl⟩
  cases s with
  | define pos name namePos params body => exact ⟨List.cons_subset.mp defined, trivial⟩
  | make pos name value => exact ⟨inner, fun _ _ => ⟨trivial, trivial⟩⟩
  | loop pos count body =>
    obtain ⟨first, block⟩ := List.append_subset.mp inner
    refine ⟨first, ?_⟩
    intro total _
    exact finish_keeps ⟨place, block, defined⟩ fun _ => trivial
  | loopCall pos count target =>
    refine ⟨inner, ?_⟩
    intro total _
    apply lookup_keeps place
    intro q named known
    split
    · rename_i admitted
      have empty : q.params = [] := by simpa [Procedure.arity] using admitted
      have site : g.Site r ⟨q.name, pos⟩ := ⟨_, here, rfl, by rw [named]; rfl⟩
      exact finish_keeps ⟨known, empty, site⟩ fun _ => trivial
    · exact fails_of_place place rfl
  | pen pos down => exact ⟨trivial, trivial⟩
  | move pos forward distance => exact ⟨inner, fun _ _ => ⟨trivial, trivial⟩⟩
  | turn pos left angle => exact ⟨inner, fun _ _ => ⟨trivial, trivial⟩⟩
  | home pos => exact ⟨trivial, trivial⟩
  | setXY pos x y =>
    obtain ⟨first, second⟩ := List.append_subset.mp inner
    exact ⟨first, fun _ _ => ⟨second, fun _ _ => ⟨trivial, trivial⟩⟩⟩
  | setHeading pos angle => exact ⟨inner, fun _ _ => ⟨trivial, trivial⟩⟩
  | call pos name args => exact ⟨⟨⟨_, here, rfl, rfl⟩, inner⟩, fun _ _ => trivial⟩
  | test pos left op right body =>
    obtain ⟨first, later⟩ := List.append_subset.mp inner
    obtain ⟨second, block⟩ := List.append_subset.mp later
    refine ⟨first, ?_⟩
    intro l _
    refine ⟨second, ?_⟩
    intro r _
    dsimp only
    split
    · exact finish_keeps ⟨block, defined⟩ fun _ => trivial
    · trivial
  | stop pos => trivial
  | output pos value => exact ⟨inner, fun _ _ => trivial⟩

theorem expr_keeps {e : Expr} (here : .expr e ∈ g.nodesIn r) (inner : e.inner ⊆ g.nodesIn r) :
    e.script.Keeps g.terrain r fun _ => True := by
  have place : ∃ node ∈ g.nodesIn r, node.pos = e.pos := ⟨_, here, rfl⟩
  cases e with
  | number pos value => trivial
  | param pos name =>
    intro env calls _ inside
    cases known : env.param? name with
    | some value =>
      simp only [known]
      trivial
    | none =>
      simp only [known]
      refine ⟨place, ?_⟩
      intro other same
      obtain rfl := Cause.undefinedParameter.inj same
      refine ⟨here, ?_⟩
      -- a declared parameter would have been found in the innermost frame
      intro declared
      obtain ⟨q, values, rest, value, -, -, -, frames, bound⟩ := inside.innermost declared
      rw [Environment.param?, frames, List.findSome?_cons, bound] at known
      simp at known
  | var pos name =>
    intro env calls _ _
    cases known : env.global? name with
    | some value =>
      simp only [known]
      trivial
    | none =>
      simp only [known]
      exact fails_of_place place rfl
  | negate pos operand => exact ⟨inner, fun _ _ => trivial⟩
  | group pos inside => exact ⟨inner, fun _ _ => trivial⟩
  | random pos limit => exact ⟨inner, fun _ _ _ => trivial⟩
  | binary op left right =>
    obtain ⟨first, later⟩ := List.cons_subset.mp inner
    obtain ⟨within, second⟩ := List.append_subset.mp later
    exact ⟨List.cons_subset.mpr ⟨first, within⟩, fun _ _ => ⟨second, fun _ _ => trivial⟩⟩
  | call pos name args =>
    refine ⟨⟨⟨_, here, rfl, rfl⟩, inner⟩, ?_⟩
    intro result _
    cases result with
    | some value => trivial
    | none => exact fails_of_place place rfl

theorem call_keeps {pos : Position} {name : Name} {args : List Expr}
    (site : g.Site r ⟨name, pos⟩) (inner : argumentNodes args ⊆ g.nodesIn r) :
    (Task.call pos name args).script.Keeps g.terrain r fun _ => True := by
  apply lookup_keeps site.place
  intro q named known
  split
  · rename_i fits
    refine ⟨inner, ?_⟩
    intro values count
    have arity : values.length = q.params.length := by
      rw [show values.length = args.length from count]
      simpa [Procedure.arity] using fits
    exact finish_keeps ⟨known, named ▸ site, values, arity, rfl⟩ fun _ => trivial
  · exact fails_of_place site.place rfl

theorem invoke_keeps {q : Procedure} {values : List Float} {pos : Position} (known : g.Defines q)
    (site : g.Site r ⟨q.name, pos⟩) (fits : values.length = q.params.length) :
    (Task.invoke q (Evaluate.bindParams q.params values) pos).script.Keeps g.terrain r
      fun _ => True := by
  refine ⟨⟨fun _ => fails_of_place site.place rfl, ?_, ?_⟩, ?_⟩
  · exact ⟨List.Subset.refl _, known.2⟩
  · intro calls frames inside
    exact .body inside known.1 site fits
  · intro signal _
    cases signal with
    | finished => trivial
    | stop => exact ⟨trivial, trivial⟩
    | output value => exact ⟨trivial, trivial⟩

theorem terrain_sound (g : Ground) : g.terrain.Sound := by
  intro r t task
  cases t with
  | statements ss =>
    cases ss with
    | nil => trivial
    | cons s rest =>
      obtain ⟨nodes, defined⟩ := task
      obtain ⟨here, others⟩ := List.cons_subset.mp nodes
      obtain ⟨inner, later⟩ := List.append_subset.mp others
      obtain ⟨definesFirst, definesLater⟩ := List.append_subset.mp defined
      refine ⟨may_refuse ⟨_, here, rfl⟩, ⟨here, inner, definesFirst⟩, ?_⟩
      intro signal _
      cases signal with
      | finished => exact finish_keeps ⟨later, definesLater⟩ fun _ => trivial
      | stop => trivial
      | output value => trivial
  | statement s => exact statement_keeps task.1 task.2.1 task.2.2
  | rounds pos body total i =>
    rw [Task.script]
    split
    · refine ⟨may_refuse task.1, task.2, ?_⟩
      intro signal _
      cases signal with
      | finished => exact finish_keeps task fun _ => trivial
      | stop => trivial
      | output value => trivial
    · trivial
  | callRounds pos q total i =>
    rw [Task.script]
    split
    · obtain ⟨known, empty, site⟩ := task
      have unbound : ([] : Table Float) = Evaluate.bindParams q.params [] := by
        rw [empty]
        rfl
      refine ⟨may_refuse site.place, ⟨known, site, [], by simp [empty], unbound⟩, ?_⟩
      intro _ _
      exact finish_keeps ⟨known, empty, site⟩ fun _ => trivial
    · trivial
  | operand what e =>
    refine ⟨task, ?_⟩
    intro v _
    dsimp only
    split
    · trivial
    · exact fails_of_place ⟨_, task List.mem_cons_self, rfl⟩ rfl
  | expr e =>
    obtain ⟨here, inner⟩ := List.cons_subset.mp task
    exact ⟨may_refuse ⟨_, here, rfl⟩, expr_keeps here inner⟩
  | arguments es =>
    cases es with
    | nil => rfl
    | cons e rest =>
      obtain ⟨here, others⟩ := List.cons_subset.mp task
      obtain ⟨inner, later⟩ := List.append_subset.mp others
      refine ⟨List.cons_subset.mpr ⟨here, inner⟩, ?_⟩
      intro v _
      refine ⟨later, ?_⟩
      intro vs count
      exact congrArg (· + 1) count
  | call pos name args => exact call_keeps task.1 task.2
  | invoke q params pos =>
    obtain ⟨known, site, values, fits, rfl⟩ := task
    exact invoke_keeps known site fits

theorem evaluate_meets {g : Ground} {p : Program} {s : Session}
    (task : g.terrain.task none (.statements p.statements)) (holds : g.terrain.Holds none s.machine)
    (fuel : Nat) (limits : Limits) (cancelledFrom : Option Nat) :
    g.terrain.Meets none p.source (fun _ => True) (s.evaluate fuel limits cancelledFrom p) :=
  g.terrain_sound.run ⟨limits, cancelledFrom, p.source⟩ fuel none _ _ task holds

end Ground

namespace Program
variable {r : Region}

theorem terrain_task (p : Program) : p.ground.terrain.task none (.statements p.statements) :=
  ⟨List.Subset.refl _, List.Subset.refl _⟩

theorem terrain_start (p : Program) (random : Random.Stream) :
    p.ground.terrain.Holds none (Session.start random).machine :=
  ⟨nofun, .outside⟩

theorem raised (p : Program) {random : Random.Stream} {fuel : Nat} {limits : Limits}
    {cancelledFrom : Option Nat} {e : RuntimeError} {m : Machine}
    (failed : (Session.start random).evaluate fuel limits cancelledFrom p = .failed e m) :
    p.ground.terrain.Permits p.source e := by
  have meets := Ground.evaluate_meets p.terrain_task (p.terrain_start random) fuel limits
    cancelledFrom
  rw [failed] at meets
  exact meets.1

/-- The calls in progress, the innermost first: each was made directly in the body of a procedure
    with the name of the next frame, the last one outside all procedures. -/
def CallsFrom (p : Program) : List CallFrame → Prop
  | [] => False
  | [f] => ∃ node ∈ nodesOf p.statements, node.Calls f
  | f :: g :: rest =>
    (∃ q ∈ p.procedures, q.name = g.procedure ∧ ∃ node ∈ nodesOf q.body, node.Calls f) ∧
      CallsFrom p (g :: rest)

abbrev Inside (p : Program) : Region → List CallFrame → List Frame → Prop := p.ground.Inside

theorem Inside.callsFrom {p : Program} {calls : List CallFrame}
    {frames : List Frame} {q : Procedure}
    (inside : p.Inside r calls frames) (within : r = some q) :
    q ∈ p.procedures ∧ ∃ f rest, calls = f :: rest ∧ f.procedure = q.name ∧
      p.CallsFrom (f :: rest) := by
  induction inside generalizing q with
  | outside => cases within
  | @body r calls frames q pos values caller defined site fits ih =>
    obtain rfl := Option.some.inj within
    refine ⟨defined, ⟨q.name, pos⟩, calls, rfl, rfl, ?_⟩
    cases r with
    | none =>
      cases caller
      exact site
    | some q' =>
      obtain ⟨defined', f, rest, rfl, named, chain⟩ := ih rfl
      exact ⟨⟨q', defined', named.symm, site⟩, chain⟩

end Program

/-- The error of a program that fails in a fresh session has one frame, at a node outside all
    procedures, or it has the place where it was raised, directly in the body of the procedure that
    was called last, and behind it the calls in progress down to the outside. The error of whatever
    a run gets to is the error of the run. -/
theorem backtraces_are_truthful (p : Program) (random : Random.Stream) (limits : Limits)
    (cancelledFrom : Option Nat) :
    (∀ fuel e m, (Session.start random).evaluate fuel limits cancelledFrom p = .failed e m →
      (∃ node ∈ nodesOf p.statements, e.frames = [⟨topLevelName, node.pos⟩]) ∨
      ∃ f g rest, e.frames = f :: g :: rest ∧ f.procedure = g.procedure ∧
        (∃ q ∈ p.procedures, q.name = g.procedure ∧ ∃ node ∈ nodesOf q.body, node.pos = f.pos) ∧
        p.CallsFrom (g :: rest)) ∧
    ∀ fuel k t x e after, (Session.start random).Reaches fuel limits cancelledFrom p k t x →
      t.run k ⟨limits, cancelledFrom, p.source⟩ x = .failed e after →
        ∃ last, (Session.start random).evaluate fuel limits cancelledFrom p = .failed e last := by
  constructor
  · intro fuel e m failed
    obtain ⟨r, x, cause, pos, holds, ⟨⟨node, member, place⟩, -⟩, rfl⟩ := p.raised failed
    have inside : p.Inside r x.calls.frames x.env.frames := holds.stack
    cases r with
    | none =>
      left
      refine ⟨node, member, ?_⟩
      generalize x.calls.frames = calls at inside ⊢
      generalize x.env.frames = frames at inside
      cases inside
      rw [place]
      rfl
    | some q =>
      right
      obtain ⟨defined, g, rest, calls, named, chain⟩ := inside.callsFrom rfl
      have body : ∃ q ∈ p.procedures, q.name = g.procedure ∧
          ∃ node ∈ nodesOf q.body, node.pos = pos := ⟨q, defined, named.symm, node, member, place⟩
      refine ⟨⟨g.procedure, pos⟩, g, rest, ?_, rfl, body, chain⟩
      rw [calls]
      rfl
  · intro fuel k t x e after reaches failed
    exact Task.failure_passes reaches failed

def missingParameter : Program where
  statements := [
    .define ⟨0, 1, 1⟩ [102] ⟨3, 1, 4⟩ [] [.call ⟨5, 1, 6⟩ [103] []],
    .define ⟨11, 1, 12⟩ [103] ⟨14, 1, 15⟩ [] [.move ⟨16, 1, 17⟩ true (.param ⟨19, 1, 20⟩ [122])],
    .call ⟨26, 1, 27⟩ [102] []]
  source := utf8 "to f g end to g fd :z end f"

/-- The backtrace goes from the reference through both calls to the outside, and it is the one with
    which the call outside has failed. -/
theorem backtraces_are_truthful_of_missing_parameter :
    parse (utf8 "to f g end to g fd :z end f") = .ok missingParameter ∧
      ∃ e m, (Session.start ⟨0, 0⟩).evaluate 20 .none none missingParameter = .failed e m ∧
        (∃ f g h, e.frames = [f, g, h] ∧ f.procedure = g.procedure ∧
          (∃ q ∈ missingParameter.procedures, q.name = g.procedure ∧
            ∃ node ∈ nodesOf q.body, node.pos = f.pos) ∧
          missingParameter.CallsFrom [g, h]) ∧
        ∃ k x after, Task.run k ⟨.none, none, missingParameter.source⟩
          (.statement (.call ⟨26, 1, 27⟩ [102] [])) x = .failed e after := by
  refine ⟨by decide +kernel, ?_⟩
  obtain ⟨truthful, passes⟩ := backtraces_are_truthful missingParameter ⟨0, 0⟩ .none none
  obtain ⟨x, reaches, e, after, failed, size⟩ : ∃ x, (Session.start ⟨0, 0⟩).Reaches 20 .none none
        missingParameter 17 (.statement (.call ⟨26, 1, 27⟩ [102] [])) x ∧
      ∃ e after, Task.run 17 ⟨.none, none, missingParameter.source⟩
        (.statement (.call ⟨26, 1, 27⟩ [102] [])) x = .failed e after ∧ e.frames.length = 3 :=
    ⟨_, .later (.stepped rfl (.behind rfl (.here _ _ _))) (.later (.stepped rfl (.behind rfl
      (.here _ _ _))) (.later (.stepped rfl (.here _ _ _)) (.here _ _ _))), _, _, rfl, rfl⟩
  obtain ⟨m, ended⟩ := passes 20 17 _ x e after reaches failed
  refine ⟨e, m, ended, ?_, 17, x, after, failed⟩
  rcases truthful 20 e m ended with ⟨node, -, one⟩ | ⟨f, g, rest, frames, same, place, chain⟩
  · simp [one] at size
  · rw [frames] at size
    obtain ⟨h, rfl⟩ : ∃ h, rest = [h] := List.length_eq_one_iff.mp (by simpa using size)
    exact ⟨f, g, h, frames, same, place, chain⟩

end TurtleLogo
