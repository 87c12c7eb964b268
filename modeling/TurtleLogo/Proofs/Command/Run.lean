import TurtleLogo.Command.Run
import TurtleLogo.Proofs.Files.Plan

/-!
Running a program from the command line. Flags, settings and the source text are settled without
writing anything, a program that fails has only drawn in memory, and so the one file that is ever
written is the drawing of a program that came to its end.
-/
namespace TurtleLogo
open Text Files

namespace Run

variable {fs : FileSystem}

/-- Where the source text of a run comes from: a flag, the one script, the settings, or else the
    sample. -/
inductive Picks (fs : FileSystem) (o : Options) (s : Settings) : List Path → Bytes → Prop where
  | flag (given : o.program ≠ []) : Picks fs o s [] o.program
  | script {path : Path} {text : Bytes} (plain : o.program = []) (found : fs.read path = .ok text) :
      Picks fs o s [path] text
  | settings (plain : o.program = []) (given : s.program ≠ []) : Picks fs o s [] s.program
  | sample (plain : o.program = []) (nothing : s.program = []) : Picks fs o s [] sample

/-- What arguments ask for on some files. -/
structure Asks (fs : FileSystem) (arguments : List Bytes) (o : Options) (s : Settings)
    (source : Bytes) : Prop where
  picked : ∃ scripts, Flags.parse flags Options.none arguments = .ok (o, scripts) ∧
    Picks fs o s scripts source
  loaded : (Settings.load o.settings).on fs = .ok (.ok s, fs)

def outputFor (o : Options) (s : Settings) : Path :=
  if o.output ≠ [] then o.output
  else if s.output ≠ [] then s.output
  else utf8 "turtle.svg"

def streamFor (random : Random.Stream) (o : Options) (s : Settings) : Random.Stream :=
  match o.seed, s.seed with
  | some seed, _ => ⟨seed, seed⟩
  | none, some seed => ⟨seed, seed⟩
  | none, none => random

theorem firstGiven_pair (first second otherwise : Bytes) :
    firstGiven [first, second] otherwise =
      if first ≠ [] then first else if second ≠ [] then second else otherwise := by
  unfold firstGiven
  by_cases given : first = []
  · by_cases set : second = [] <;> simp [given, set]
  · simp [given]

theorem job_output (random : Random.Stream) (o : Options) (s : Settings) (text : Bytes) :
    (job random o s text).output = outputFor o s :=
  firstGiven_pair o.output s.output Image.defaultPath

theorem job_random (random : Random.Stream) (o : Options) (s : Settings) (text : Bytes) :
    (job random o s text).random = streamFor random o s := by
  unfold job streamFor
  cases o.seed <;> cases s.seed <;> rfl

theorem load_silent (path : Path) : (Settings.load path).Silent := by
  unfold Settings.load
  apply Plan.Silent.bind (.here fun _ => .done _)
  intro place
  apply Plan.Silent.bind (.read fun _ => .done _)
  intro found
  cases found with
  | ok text =>
    dsimp only
    split
    · exact .halt _
    · exact .done _
  | error e =>
    dsimp only
    split
    · exact .done _
    · split
      · exact .done _
      · exact .done _

theorem source_silent (o : Options) (s : Settings) (scripts : List Path) :
    (source o s scripts).Silent := by
  unfold source
  split
  · exact .done _
  · split
    · exact Plan.Silent.bind (.read fun _ => .done _) fun _ => .done _
    · exact .done _
  · exact .done _

theorem prepare_silent (random : Random.Stream) (arguments : List Bytes) :
    (prepare random arguments).Silent := by
  unfold prepare
  split
  · exact .done _
  · apply (load_silent _).bind
    intro loaded
    split
    · exact .done _
    · exact (source_silent _ _ _).bind fun _ => .done _

theorem source_on_iff {o : Options} {s : Settings} {scripts : List Path} {text : Bytes} :
    (source o s scripts).on fs = .ok (.ok text, fs) ↔ Picks fs o s scripts text := by
  constructor
  · intro ran
    cases scripts with
    | nil =>
      rw [source, Plan.on_pure, firstGiven_pair] at ran
      cases ran
      by_cases plain : o.program = []
      · rw [if_neg (not_not.mpr plain)]
        by_cases nothing : s.program = []
        · rw [if_neg (not_not.mpr nothing)]
          exact .sample plain nothing
        · rw [if_pos nothing]
          exact .settings plain nothing
      · rw [if_pos plain]
        exact .flag plain
    | cons path others =>
      cases others with
      | cons other rest => cases ran
      | nil =>
        rw [source] at ran
        split at ran
        · rename_i plain
          rw [Plan.on_bind, Plan.on_readFile] at ran
          cases found : fs.read path with
          | error e =>
            rw [found] at ran
            cases ran
          | ok contents =>
            rw [found] at ran
            cases ran
            exact .script (by simpa using plain) found
        · cases ran
  · rintro (given | ⟨plain, found⟩ | ⟨plain, given⟩ | ⟨plain, nothing⟩)
    · rw [source, firstGiven_pair, if_pos given, Plan.on_pure]
    · rw [source, if_pos (by simp [plain]), Plan.on_bind, Plan.on_readFile, found]
      rfl
    · rw [source, firstGiven_pair, if_neg (not_not.mpr plain), if_pos given, Plan.on_pure]
    · rw [source, firstGiven_pair, if_neg (not_not.mpr plain), if_neg (not_not.mpr nothing),
        Plan.on_pure]

theorem prepare_on_iff {random : Random.Stream} {arguments : List Bytes} {j : Job} :
    (prepare random arguments).on fs = .ok (.ok j, fs) ↔
      ∃ o s text, Asks fs arguments o s text ∧ j = job random o s text := by
  constructor
  · intro ran
    unfold prepare at ran
    split at ran
    · cases ran
    · rename_i o scripts parsed
      obtain ⟨found, left, loaded, ran⟩ := Plan.on_bind_eq_ok ran
      obtain rfl := (load_silent o.settings).on_same loaded
      cases found with
      | error e => cases ran
      | ok s =>
        obtain ⟨text, last, picked, ran⟩ := Plan.on_bind_eq_ok ran
        obtain rfl := (source_silent o s scripts).on_same picked
        cases text with
        | error e => cases ran
        | ok text =>
          cases ran
          exact ⟨o, s, text, ⟨⟨scripts, parsed, source_on_iff.mp picked⟩, loaded⟩, rfl⟩
  · rintro ⟨o, s, text, ⟨⟨scripts, parsed, picked⟩, loaded⟩, rfl⟩
    rw [prepare, parsed]
    dsimp only
    rw [Plan.on_bind, loaded]
    dsimp only
    rw [Plan.on_bind, source_on_iff.mpr picked]
    rfl

section
variable {j : Job}

theorem perform_checked (check : j.check = true) (fs : FileSystem) :
    j.perform.on fs = .ok (j.compile, fs) ∧ j.perform.writes fs = [] := by
  rw [Job.perform, if_pos check]
  exact ⟨rfl, rfl⟩

theorem compile_succeeds_iff : j.compile.error = none ↔ ∃ p, parse j.source = .ok p := by
  rw [Job.compile]
  cases parse j.source <;> simp

theorem perform_failed {failure : Failure} {events : List Event} (runs : j.check = false)
    (failed : j.draw = (.error failure, events)) (fs : FileSystem) :
    ∃ result, result.error ≠ none ∧ j.perform.on fs = .ok (result, fs) ∧
      j.perform.writes fs = [] := by
  rw [Job.perform, if_neg (by simp [runs]), failed]
  exact ⟨_, by simp, rfl, rfl⟩

variable {image : Image} {events : List Event}

theorem perform_blocked {e : FileError} (runs : j.check = false)
    (drawn : j.draw = (.ok image, events)) (blocked : fs.target j.output = .error e) :
    ∃ result, result.error ≠ none ∧ j.perform.on fs = .ok (result, fs) ∧
      j.perform.writes fs = [] := by
  rw [Job.perform, if_neg (by simp [runs]), drawn]
  dsimp only
  refine ⟨⟨some (.output e), j.events events⟩, by simp, ?_, ?_⟩
  · rw [Plan.on_bind, Plan.on_writeFile, blocked]
    rfl
  · rw [Plan.writes_bind, Plan.on_writeFile, Plan.writeFile, Plan.writes, blocked]
    rfl

theorem perform_drawn {place : Path} (runs : j.check = false)
    (drawn : j.draw = (.ok image, events)) (vacant : fs.target j.output = .ok place) :
    ∃ result, result.error = none ∧
      j.perform.on fs = .ok (result, fs.holding place image.svg) ∧
      j.perform.writes fs = [(place, image.svg)] := by
  rw [Job.perform, if_neg (by simp [runs]), drawn]
  dsimp only
  refine ⟨⟨none, j.events events ++ [written j.output image]⟩, rfl, ?_, ?_⟩
  · rw [Plan.on_bind, Plan.on_writeFile, vacant]
    rfl
  · rw [Plan.writes_bind, Plan.on_writeFile, Plan.writeFile, Plan.writes, vacant]
    rfl

theorem perform_cases (j : Job) (fs : FileSystem) :
    (∃ result, result.error ≠ none ∧ j.perform.on fs = .ok (result, fs) ∧
      j.perform.writes fs = []) ∨
    (∃ p result, j.check = true ∧ parse j.source = .ok p ∧ result.error = none ∧
      j.perform.on fs = .ok (result, fs) ∧ j.perform.writes fs = []) ∨
    ∃ image events place result, j.check = false ∧ j.draw = (.ok image, events) ∧
      fs.target j.output = .ok place ∧ result.error = none ∧
      j.perform.on fs = .ok (result, fs.holding place image.svg) ∧
      j.perform.writes fs = [(place, image.svg)] := by
  by_cases check : j.check = true
  · obtain ⟨ran, silent⟩ := perform_checked check fs
    by_cases fine : j.compile.error = none
    · obtain ⟨p, accepted⟩ := compile_succeeds_iff.mp fine
      exact .inr (.inl ⟨p, j.compile, check, accepted, fine, ran, silent⟩)
    · exact .inl ⟨j.compile, fine, ran, silent⟩
  · have runs : j.check = false := by simpa using check
    obtain ⟨drawing, events, drawn⟩ : ∃ drawing events, j.draw = (drawing, events) := ⟨_, _, rfl⟩
    cases drawing with
    | error failure => exact .inl (perform_failed runs drawn fs)
    | ok image =>
      rcases found : fs.target j.output with e | place
      · exact .inl (perform_blocked runs drawn found)
      · obtain ⟨result, fine, ran, wrote⟩ := perform_drawn runs drawn found
        exact .inr (.inr ⟨image, events, place, result, runs, drawn, rfl, fine, ran, wrote⟩)

end

theorem run_refused {random : Random.Stream} {arguments : List Bytes} {e : Error}
    (refused : (prepare random arguments).on fs = .ok (.error e, fs)) :
    (run random arguments).on fs = .ok (⟨some e, []⟩, fs) ∧
      (run random arguments).writes fs = [] := by
  rw [run, Plan.on_bind, Plan.writes_bind, refused, (prepare_silent random arguments).writes_nil]
  exact ⟨rfl, rfl⟩

theorem run_prepared {random : Random.Stream} {arguments : List Bytes} {j : Job}
    (prepared : (prepare random arguments).on fs = .ok (.ok j, fs)) :
    (run random arguments).on fs = j.perform.on fs ∧
      (run random arguments).writes fs = j.perform.writes fs := by
  rw [run, Plan.on_bind, Plan.writes_bind, prepared, (prepare_silent random arguments).writes_nil]
  exact ⟨rfl, rfl⟩

theorem run_broken {random : Random.Stream} {arguments : List Bytes} {message : Bytes}
    (broke : (prepare random arguments).on fs = .error message) :
    (run random arguments).on fs = .error message ∧ (run random arguments).writes fs = [] := by
  rw [run, Plan.on_bind, Plan.writes_bind, broke, (prepare_silent random arguments).writes_nil]
  exact ⟨rfl, rfl⟩

theorem prepare_cases (random : Random.Stream) (arguments : List Bytes) (fs : FileSystem) :
    (∃ message, (prepare random arguments).on fs = .error message) ∨
    (∃ e, (prepare random arguments).on fs = .ok (.error e, fs)) ∨
    ∃ j, (prepare random arguments).on fs = .ok (.ok j, fs) := by
  cases prepared : (prepare random arguments).on fs with
  | error message => exact .inl ⟨message, rfl⟩
  | ok reached =>
    obtain ⟨found, left⟩ := reached
    obtain rfl := (prepare_silent random arguments).on_same prepared
    cases found with
    | error e => exact .inr (.inl ⟨e, rfl⟩)
    | ok j => exact .inr (.inr ⟨j, rfl⟩)

theorem job_draw (random : Random.Stream) (o : Options) (s : Settings) (text : Bytes) :
    (job random o s text).draw = draw s.limits false (streamFor random o s) text := by
  rw [Job.draw, job_random]
  rfl

theorem run_cases (random : Random.Stream) (arguments : List Bytes) (fs : FileSystem) :
    ((∃ message, (run random arguments).on fs = .error message) ∧
      (run random arguments).writes fs = []) ∨
    (∃ result, result.error ≠ none ∧ (run random arguments).on fs = .ok (result, fs) ∧
      (run random arguments).writes fs = []) ∨
    ∃ o s source result after, Asks fs arguments o s source ∧ result.error = none ∧
      (run random arguments).on fs = .ok (result, after) ∧
      ((o.check = true ∧ (∃ p, parse source = .ok p) ∧ after = fs ∧
          (run random arguments).writes fs = []) ∨
        (o.check = false ∧ ∃ image events place,
          draw s.limits false (streamFor random o s) source = (.ok image, events) ∧
          fs.target (outputFor o s) = .ok place ∧ after = fs.holding place image.svg ∧
          (run random arguments).writes fs = [(place, image.svg)])) := by
  rcases prepare_cases random arguments fs with ⟨message, broke⟩ | ⟨e, refused⟩ | ⟨j, prepared⟩
  · obtain ⟨ran, silent⟩ := run_broken broke
    exact .inl ⟨⟨message, ran⟩, silent⟩
  · obtain ⟨ran, silent⟩ := run_refused refused
    exact .inr (.inl ⟨_, by simp, ran, silent⟩)
  · obtain ⟨ran, wrote⟩ := run_prepared prepared
    rw [ran, wrote]
    obtain ⟨o, s, source, asks, rfl⟩ := prepare_on_iff.mp prepared
    rcases perform_cases (job random o s source) fs with
      failed | ⟨p, result, check, accepted, fine, done, silent⟩ |
        ⟨image, events, place, result, runs, drawn, found, fine, done, drawing⟩
    · exact .inr (.inl failed)
    · exact .inr (.inr ⟨o, s, source, result, fs, asks, fine, done,
        .inl ⟨check, ⟨p, accepted⟩, rfl, silent⟩⟩)
    · rw [job_draw] at drawn
      rw [job_output] at found
      exact .inr (.inr ⟨o, s, source, result, _, asks, fine, done,
        .inr ⟨runs, image, events, place, drawn, found, rfl, drawing⟩⟩)

theorem run_succeeds {random : Random.Stream} {arguments : List Bytes} {o : Options} {s : Settings}
    {source : Bytes} (asks : Asks fs arguments o s source)
    (compiles : o.check = true → ∃ p, parse source = .ok p)
    (draws : o.check = false →
      (∃ image events, draw s.limits false (streamFor random o s) source = (.ok image, events)) ∧
      ∃ place, fs.target (outputFor o s) = .ok place) :
    ∃ result after, (run random arguments).on fs = .ok (result, after) ∧ result.error = none := by
  obtain ⟨ran, -⟩ := run_prepared (prepare_on_iff.mpr ⟨o, s, source, asks, rfl⟩ :
    (prepare random arguments).on fs = _)
  by_cases check : o.check = true
  · obtain ⟨done, -⟩ := perform_checked (j := job random o s source) check fs
    exact ⟨_, _, ran.trans done, compile_succeeds_iff.mpr (compiles check)⟩
  · have runs : o.check = false := by simpa using check
    obtain ⟨⟨image, events, drawn⟩, place, found⟩ := draws runs
    rw [← job_draw] at drawn
    rw [← job_output random o s source] at found
    obtain ⟨result, fine, done, -⟩ := perform_drawn runs drawn found
    exact ⟨_, _, ran.trans done, fine⟩

/-- Whatever the arguments, the files and the random stream are, a run that fails or breaks down
    writes nothing, and neither does one that only checks. A run that succeeds without checking
    writes one file: the output that the flags name, or else the settings, or else the default, and
    into it the drawing of the source text that was asked for. A run does succeed if its source text
    does and the output can be written. -/
theorem run_writes_only_its_drawing (random : Random.Stream) (arguments : List Bytes)
    (fs : FileSystem) :
    (∀ message, (run random arguments).on fs = .error message →
      (run random arguments).writes fs = []) ∧
    (∀ result after, (run random arguments).on fs = .ok (result, after) → result.error ≠ none →
      after = fs ∧ (run random arguments).writes fs = []) ∧
    (∀ result after, (run random arguments).on fs = .ok (result, after) → result.error = none →
      ∃ o s source, Asks fs arguments o s source ∧
        (o.check = true →
          (∃ p, parse source = .ok p) ∧ after = fs ∧ (run random arguments).writes fs = []) ∧
        (o.check = false → ∃ image events place,
          draw s.limits false (streamFor random o s) source = (.ok image, events) ∧
          fs.target (outputFor o s) = .ok place ∧
          (run random arguments).writes fs = [(place, image.svg)] ∧
          after.cwd = fs.cwd ∧
          ∀ q, after.get? q = if q = place then some image.svg else fs.get? q)) ∧
    ∀ o s source, Asks fs arguments o s source →
      (o.check = true → ∃ p, parse source = .ok p) →
      (o.check = false →
        (∃ image events, draw s.limits false (streamFor random o s) source = (.ok image, events)) ∧
        ∃ place, fs.target (outputFor o s) = .ok place) →
      ∃ result after, (run random arguments).on fs = .ok (result, after) ∧ result.error = none := by
  have cases := run_cases random arguments fs
  refine ⟨?_, ?_, ?_, fun o s source asks => run_succeeds asks⟩
  · intro message broke
    rcases cases with ⟨-, silent⟩ | ⟨_, -, ran, -⟩ | ⟨_, _, _, _, _, -, -, ran, -⟩
    · exact silent
    · rw [broke] at ran
      cases ran
    · rw [broke] at ran
      cases ran
  · intro result after ran failed
    rcases cases with ⟨⟨_, broke⟩, -⟩ | ⟨_, -, same, silent⟩ | ⟨_, _, _, _, _, -, fine, same, -⟩
    · rw [broke] at ran
      cases ran
    · rw [same] at ran
      cases ran
      exact ⟨rfl, silent⟩
    · rw [same] at ran
      cases ran
      contradiction
  · intro result after ran fine
    rcases cases with ⟨⟨_, broke⟩, -⟩ | ⟨_, failed, same, -⟩ |
      ⟨o, s, source, _, _, asks, -, same, checked | drawn⟩
    · rw [broke] at ran
      cases ran
    · rw [same] at ran
      cases ran
      contradiction
    · rw [same] at ran
      cases ran
      obtain ⟨check, accepted, rfl, silent⟩ := checked
      refine ⟨o, s, source, asks, fun _ => ⟨accepted, rfl, silent⟩, fun runs => ?_⟩
      simp [runs] at check
    · rw [same] at ran
      cases ran
      obtain ⟨runs, image, events, place, drawn, found, rfl, wrote⟩ := drawn
      refine ⟨o, s, source, asks, fun check => ?_, fun _ => ?_⟩
      · simp [runs] at check
      · exact ⟨image, events, place, drawn, found, wrote, rfl,
          fun q => FileSystem.get?_holding fs place q image.svg⟩

def drawnBefore : FileSystem :=
  ⟨utf8 "/w", [(utf8 "/w/turtle.svg", utf8 "old")]⟩

set_option maxRecDepth 100000 in
theorem run_writes_only_its_drawing_of_pen_up :
    let arguments := [utf8 "-P", utf8 "pu", utf8 "-O", utf8 "b.svg"]
    ∃ image events result after,
      draw Limits.none false ⟨0, 0⟩ (utf8 "pu") = (.ok image, events) ∧
      (run ⟨0, 0⟩ arguments).on drawnBefore = .ok (result, after) ∧ result.error = none ∧
      (run ⟨0, 0⟩ arguments).writes drawnBefore = [(utf8 "/w/b.svg", image.svg)] ∧
      after.get? (utf8 "/w/b.svg") = some image.svg ∧
      after.get? (utf8 "/w/turtle.svg") = some (utf8 "old") := by
  intro arguments
  have parsed : Flags.parse flags Options.none arguments =
      .ok ({ Options.none with program := utf8 "pu", output := utf8 "b.svg" }, []) := rfl
  have loaded : (Settings.load []).on drawnBefore = .ok (.ok Settings.default, drawnBefore) := rfl
  have asks : Asks drawnBefore arguments
      { Options.none with program := utf8 "pu", output := utf8 "b.svg" } Settings.default
      (utf8 "pu") :=
    ⟨⟨[], parsed, .flag (by decide)⟩, loaded⟩
  have drawn : ∃ image events, draw Limits.none false ⟨0, 0⟩ (utf8 "pu") = (.ok image, events) :=
    ⟨_, _, rfl⟩
  have found : drawnBefore.target (utf8 "b.svg") = .ok (utf8 "/w/b.svg") := rfl
  obtain ⟨-, -, shape, succeeds⟩ := run_writes_only_its_drawing ⟨0, 0⟩ arguments drawnBefore
  obtain ⟨result, after, ran, fine⟩ := succeeds _ _ _ asks (fun checked => nomatch checked)
    fun _ => ⟨drawn, _, found⟩
  obtain ⟨o, s, source, asked, -, wrote⟩ := shape result after ran fine
  obtain ⟨⟨scripts, again, picked⟩, settled⟩ := asked
  rw [parsed] at again
  cases again
  cases loaded.symm.trans settled
  cases picked with
  | settings plain => exact absurd plain (by decide)
  | sample plain => exact absurd plain (by decide)
  | flag _ =>
    obtain ⟨image, events, place, picture, there, writes, -, kept⟩ := wrote rfl
    obtain rfl : utf8 "/w/b.svg" = place := Except.ok.inj (found.symm.trans there)
    refine ⟨image, events, result, after, picture, ran, fine, writes, ?_, ?_⟩
    · rw [kept, if_pos rfl]
    · rw [kept, if_neg (by decide)]
      rfl

end Run
end TurtleLogo
