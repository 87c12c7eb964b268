import TurtleLogo.Command.Format
import TurtleLogo.Proofs.Files.Plan
import TurtleLogo.Proofs.Indent.Settled

/-!
Formatting files twice. Writing formatted texts back keeps all places where they are, so the same
targets lead to the same files, and in each of them a second pass finds what it would make of it.
-/
namespace TurtleLogo
open Text Files

namespace Files.FileSystem

theorem put_names {files : List (Path × Bytes)} {place : Path}
    (there : place ∈ files.map Prod.fst) (contents : Bytes) :
    (put files place contents).map Prod.fst = files.map Prod.fst := by
  induction files with
  | nil => simp at there
  | cons entry rest ih =>
    by_cases found : entry.1 = place
    · rw [put, if_pos (beq_iff_eq.mpr found)]
      rfl
    · rw [put, if_neg (by simpa using found), List.map_cons, List.map_cons]
      rw [List.map_cons, List.mem_cons] at there
      rw [ih (there.resolve_left (Ne.symm found))]

theorem mem_names_of_get? {fs : FileSystem} {place : Path} {contents : Bytes}
    (found : fs.get? place = some contents) : place ∈ fs.files.map Prod.fst := by
  rw [get?] at found
  generalize fs.files = files at found ⊢
  induction files with
  | nil => simp at found
  | cons entry rest ih =>
    rw [lookup_cons] at found
    rw [List.map_cons, List.mem_cons]
    by_cases here : place = entry.1
    · exact .inl here
    · rw [if_neg here] at found
      exact .inr (ih found)

/-- The same places, and in each the contents from before or a text that is laid out. -/
structure Tidied (fs after : FileSystem) : Prop where
  cwd : after.cwd = fs.cwd
  names : after.files.map Prod.fst = fs.files.map Prod.fst
  contents : ∀ q, after.get? q = fs.get? q ∨
    ∃ old text, fs.get? q = some old ∧ after.get? q = some (formatted text)

variable {fs mid after : FileSystem}

theorem Tidied.refl (fs : FileSystem) : Tidied fs fs := ⟨rfl, rfl, fun _ => .inl rfl⟩

theorem Tidied.trans (first : Tidied fs mid) (second : Tidied mid after) : Tidied fs after := by
  refine ⟨second.cwd.trans first.cwd, second.names.trans first.names, fun q => ?_⟩
  rcases second.contents q with same | ⟨old, text, there, laid⟩
  · rw [same]
    exact first.contents q
  · rcases first.contents q with same | ⟨older, _, there, _⟩
    · exact .inr ⟨old, text, same ▸ there, laid⟩
    · exact .inr ⟨older, text, there, laid⟩

theorem tidied_holding {place : Path} {old : Bytes} (found : fs.get? place = some old)
    (text : Bytes) : Tidied fs (fs.holding place (formatted text)) := by
  refine ⟨rfl, put_names (mem_names_of_get? found) _, fun q => ?_⟩
  rw [get?_holding]
  by_cases here : q = place
  · rw [if_pos here]
    exact .inr ⟨old, text, here ▸ found, rfl⟩
  · rw [if_neg here]
    exact .inl rfl

def present (fs : FileSystem) : Place → Place
  | .file place old => .file place ((fs.get? place).getD old)
  | place => place

theorem Tidied.hasDirectory (tidied : Tidied fs after) (p : Path) :
    after.hasDirectory p = fs.hasDirectory p := by
  rw [FileSystem.hasDirectory, FileSystem.hasDirectory, tidied.cwd, tidied.names]

theorem Tidied.descend (tidied : Tidied fs after) (dir : Path) (elements : List Bytes) :
    after.descend dir elements = (fs.descend dir elements).map after.present := by
  induction elements generalizing dir with
  | nil => rfl
  | cons element rest ih =>
    simp only [FileSystem.descend]
    split
    · exact ih dir
    split
    · exact ih (above dir)
    split
    · rfl
    rcases tidied.contents (within dir ++ element) with same | ⟨old, text, there, laid⟩
    · rw [same, tidied.hasDirectory]
      cases found : fs.get? (within dir ++ element) with
      | some contents =>
        dsimp only
        split
        · rw [found] at same
          rw [Except.map, present, same]
          rfl
        · rfl
      | none =>
        dsimp only
        split
        · exact ih _
        split
        · rfl
        · rfl
    · rw [there, laid]
      dsimp only
      split
      · rw [Except.map, present, laid]
        rfl
      · rfl

theorem Tidied.locate (tidied : Tidied fs after) (p : Path) :
    after.locate p = (fs.locate p).map after.present := by
  unfold FileSystem.locate
  split
  · rfl
  split
  · rfl
  split
  · rfl
  rw [tidied.cwd, tidied.descend]

theorem get?_of_descend {dir place : Path} {elements : List Bytes} {contents : Bytes}
    (found : fs.descend dir elements = .ok (.file place contents)) :
    fs.get? place = some contents := by
  induction elements generalizing dir with
  | nil => simp [FileSystem.descend] at found
  | cons element rest ih =>
    simp only [FileSystem.descend] at found
    split at found
    · exact ih found
    split at found
    · exact ih found
    split at found
    · simp at found
    split at found
    · rename_i old there
      split at found
      · cases found
        exact there
      · simp at found
    · split at found
      · exact ih found
      split at found
      · simp at found
      · simp at found

theorem get?_of_locate {p place : Path} {contents : Bytes}
    (found : fs.locate p = .ok (.file place contents)) : fs.get? place = some contents := by
  unfold FileSystem.locate at found
  split at found
  · simp at found
  split at found
  · simp at found
  split at found
  · simp at found
  exact get?_of_descend found

theorem read_eq_ok_iff {p : Path} {text : Bytes} :
    fs.read p = .ok text ↔
      ∃ place, fs.locate p = .ok (.file place text) ∧ endsInSlash p = false := by
  unfold FileSystem.read
  constructor
  · intro found
    split at found
    · simp at found
    · simp at found
    · simp at found
    · rename_i place contents there
      split at found
      · simp at found
      · rename_i ends
        cases found
        exact ⟨place, there, by simpa using ends⟩
  · rintro ⟨place, there, ends⟩
    rw [there, ends]
    rfl

theorem Tidied.list (tidied : Tidied fs after) (p : Path) : after.list p = fs.list p := by
  rw [FileSystem.list, FileSystem.list, tidied.locate, tidied.names]
  cases fs.locate p with
  | error reason => rfl
  | ok place => cases place <;> rfl

end Files.FileSystem

namespace Format
open Files.FileSystem
variable {fs after : FileSystem}

def Settled (fs : FileSystem) (path : Path) : Prop :=
  ∃ text, fs.read path = .ok text ∧ formatted text = text

theorem Settled.tidied {path : Path} (settled : Settled fs path) (tidied : fs.Tidied after) :
    Settled after path := by
  obtain ⟨text, found, same⟩ := settled
  obtain ⟨place, there, ends⟩ := read_eq_ok_iff.mp found
  have located := tidied.locate path
  rw [there, Except.map, present] at located
  refine ⟨_, read_eq_ok_iff.mpr ⟨place, located, ends⟩, ?_⟩
  rcases tidied.contents place with kept | ⟨old, source, -, laid⟩
  · rw [kept, get?_of_locate there]
    exact same
  · rw [laid]
    exact formatted_formatted source

theorem settled_holding {path place : Path} {text : Bytes}
    (there : fs.locate path = .ok (.file place text)) (ends : endsInSlash path = false) :
    Settled (fs.holding place (formatted text)) path := by
  have tidied := tidied_holding (get?_of_locate there) text
  have located := tidied.locate path
  rw [there, Except.map, present, get?_holding, if_pos rfl] at located
  exact ⟨_, read_eq_ok_iff.mpr ⟨place, located, ends⟩, formatted_formatted text⟩

theorem target_of_locate {path place : Path} {text : Bytes}
    (there : fs.locate path = .ok (.file place text)) (ends : endsInSlash path = false) :
    fs.target path = .ok place := by
  rw [FileSystem.target, there, ends]
  rfl

theorem formatFile_settles {path : Path} {p : Progress}
    (ran : (formatFile .write path).on fs = .ok (p, after)) (fine : p.error = none) :
    fs.Tidied after ∧ Settled after path := by
  rw [formatFile, Plan.on_bind, Plan.on_readFile] at ran
  cases found : fs.read path with
  | error e =>
    rw [found] at ran
    cases ran
    simp at fine
  | ok text =>
    rw [found] at ran
    dsimp only at ran
    split at ran
    · rename_i same
      cases ran
      exact ⟨.refl _, text, found, by simpa using same⟩
    · obtain ⟨place, there, ends⟩ := read_eq_ok_iff.mp found
      rw [Plan.on_bind, Plan.on_writeFile, target_of_locate there ends] at ran
      cases ran
      exact ⟨tidied_holding (get?_of_locate there) text, settled_holding there ends⟩

theorem formatFiles_settles {files : List Path} {p : Progress}
    (ran : (formatFiles .write files).on fs = .ok (p, after)) (fine : p.error = none) :
    fs.Tidied after ∧ ∀ path ∈ files, Settled after path := by
  induction files generalizing fs p with
  | nil =>
    cases ran
    exact ⟨.refl _, by simp⟩
  | cons path rest ih =>
    rw [formatFiles] at ran
    obtain ⟨q, mid, first, ran⟩ := Plan.on_bind_eq_ok ran
    split at ran
    · rename_i failed
      cases ran
      simp [fine] at failed
    · rename_i going
      obtain ⟨tidied, settled⟩ := formatFile_settles first (by simpa using going)
      obtain ⟨r, left, others, ran⟩ := Plan.on_bind_eq_ok ran
      cases ran
      obtain ⟨more, all⟩ := ih others fine
      refine ⟨tidied.trans more, fun other member => ?_⟩
      rcases List.mem_cons.mp member with rfl | later
      · exact settled.tidied more
      · exact all other later

theorem formatFile_of_settled {mode : Mode} {path : Path} (silent : mode ≠ .print)
    (settled : Settled fs path) :
    (formatFile mode path).on fs = .ok (⟨[], [], none⟩, fs) := by
  obtain ⟨text, found, same⟩ := settled
  rw [formatFile, Plan.on_bind, Plan.on_readFile, found]
  cases mode with
  | print => contradiction
  | check =>
    dsimp only
    rw [if_pos (by simpa using same)]
    rfl
  | write =>
    dsimp only
    rw [if_pos (by simpa using same)]
    rfl

theorem formatFiles_of_settled {mode : Mode} {files : List Path} (silent : mode ≠ .print)
    (all : ∀ path ∈ files, Settled fs path) :
    (formatFiles mode files).on fs = .ok (⟨[], [], none⟩, fs) := by
  induction files with
  | nil => rfl
  | cons path rest ih =>
    have others := ih fun other later => all other (List.mem_cons_of_mem path later)
    rw [formatFiles, Plan.on_bind, formatFile_of_settled silent (all path List.mem_cons_self)]
    dsimp only
    rw [if_neg (by decide), Plan.on_bind, others]
    rfl

theorem collect_tidied (tidied : fs.Tidied after) (targets : List Path) :
    ∃ found, (collect targets).on fs = .ok (found, fs) ∧
      (collect targets).on after = .ok (found, after) := by
  induction targets with
  | nil => exact ⟨.ok [], rfl, rfl⟩
  | cons target rest ih =>
    obtain ⟨more, before, behind⟩ := ih
    simp only [collect, Plan.on_bind, Plan.on_listFiles, tidied.list]
    cases fs.list target with
    | error e => exact ⟨.error (.target e), rfl, rfl⟩
    | ok files =>
      simp only [Plan.on_bind, before, behind]
      exact ⟨_, rfl, rfl⟩

theorem programFiles_tidied (tidied : fs.Tidied after) (targets : List Path) :
    ∃ found, (programFiles targets).on fs = .ok (found, fs) ∧
      (programFiles targets).on after = .ok (found, after) := by
  obtain ⟨found, before, behind⟩ := collect_tidied tidied targets
  simp only [programFiles, Plan.on_bind, before, behind]
  exact ⟨_, rfl, rfl⟩

def treat (mode : Mode) : Except Error (List Path) → Plan Result
  | .error e => return ⟨some e, []⟩
  | .ok files => return (← formatFiles mode files).result mode

theorem run_eq {arguments targets : List Bytes} {o : Options}
    (parsed : Flags.parse flags ⟨false, false⟩ arguments = .ok (o, targets))
    (nonempty : targets ≠ []) : run arguments = programFiles targets >>= treat o.mode := by
  cases targets with
  | nil => contradiction
  | cons target rest =>
    rw [run, parsed]
    rfl

theorem treat_settles {mode : Mode} {files : List Path} {result : Result} (writing : mode = .write)
    (ran : (treat mode (.ok files)).on fs = .ok (result, after)) (fine : result.error = none) :
    fs.Tidied after ∧ ∀ path ∈ files, Settled after path := by
  subst writing
  rw [treat] at ran
  obtain ⟨p, left, done, ran⟩ := Plan.on_bind_eq_ok ran
  cases ran
  apply formatFiles_settles done
  rw [Progress.result] at fine
  split at fine
  · exact fine
  · rename_i going
    simpa using going

theorem treat_of_settled {mode : Mode} {files : List Path} (silent : mode ≠ .print)
    (all : ∀ path ∈ files, Settled fs path) :
    (treat mode (.ok files)).on fs = .ok (⟨none, []⟩, fs) := by
  rw [treat, Plan.on_bind, formatFiles_of_settled silent all]
  cases mode <;> rfl

end Format

/-- A laid out text is laid out as it is. So once program files are written back without a failure,
    neither checking the same targets nor writing them again has anything to report or to change. -/
theorem formatting_twice_changes_nothing :
    (∀ source : Bytes, formatted (formatted source) = formatted source) ∧
    ∀ (arguments targets : List Bytes) (o : Format.Options) (fs after : FileSystem)
      (result : Format.Result),
      Flags.parse Format.flags ⟨false, false⟩ arguments = .ok (o, targets) → o.mode = .write →
      (Format.run arguments).on fs = .ok (result, after) → result.error = none →
      ∀ (again : List Bytes) (p : Format.Options),
        Flags.parse Format.flags ⟨false, false⟩ again = .ok (p, targets) → p.mode ≠ .print →
        (Format.run again).on after = .ok (⟨none, []⟩, after) := by
  refine ⟨formatted_formatted, ?_⟩
  intro arguments targets o fs after result parsed writing ran fine again p reparsed silent
  have nonempty : targets ≠ [] := by
    rintro rfl
    rw [Format.run, parsed] at ran
    cases ran
    simp at fine
  obtain ⟨found, listed, -⟩ := Format.programFiles_tidied (.refl fs) targets
  rw [Format.run_eq parsed nonempty, Plan.on_bind, listed] at ran
  cases found with
  | error e =>
    cases ran
    simp at fine
  | ok files =>
    obtain ⟨tidied, settled⟩ := Format.treat_settles writing ran fine
    obtain ⟨same, before, behind⟩ := Format.programFiles_tidied tidied targets
    obtain rfl : same = .ok files := by
      rw [listed] at before
      cases before
      rfl
    rw [Format.run_eq reparsed nonempty, Plan.on_bind, behind]
    exact Format.treat_of_settled silent settled

def unindented : FileSystem := ⟨utf8 "/w", [(utf8 "/w/a.logo", utf8 "repeat 4 [\nfd 10\n  ]")]⟩

set_option maxRecDepth 100000 in
/-- The indented loop is written back, and then it is as it should be. -/
theorem formatting_twice_changes_nothing_of_loop :
    ∃ result after, (Format.run [utf8 "-w", utf8 "."]).on unindented = .ok (result, after) ∧
      result.error = none ∧
      after.files = [(utf8 "/w/a.logo", utf8 "repeat 4 [\n  fd 10\n]\n")] ∧
      (Format.run [utf8 "-check", utf8 "."]).on after = .ok (⟨none, []⟩, after) := by
  obtain ⟨-, twice⟩ := formatting_twice_changes_nothing
  have parsed : Flags.parse Format.flags ⟨false, false⟩ [utf8 "-w", utf8 "."] =
      .ok (⟨true, false⟩, [utf8 "."]) := rfl
  have collected : (Format.collect [utf8 "."]).on unindented =
      .ok (.ok [utf8 "/w/a.logo"], unindented) := rfl
  have listed : (Format.programFiles [utf8 "."]).on unindented =
      .ok (.ok [utf8 "/w/a.logo"], unindented) := by
    rw [Format.programFiles, Plan.on_bind, collected]
    simp only [Except.map, sorted, List.mergeSort_singleton]
    rfl
  obtain ⟨result, after, ran, fine, left⟩ :
      ∃ result after, (Format.run [utf8 "-w", utf8 "."]).on unindented = .ok (result, after) ∧
        result.error = none ∧
        after.files = [(utf8 "/w/a.logo", utf8 "repeat 4 [\n  fd 10\n]\n")] := by
    rw [Format.run_eq parsed (by simp), Plan.on_bind, listed]
    exact ⟨_, _, rfl, rfl, rfl⟩
  refine ⟨result, after, ran, fine, left, ?_⟩
  exact twice _ _ _ _ _ _ parsed rfl ran fine _ ⟨false, true⟩ rfl (by decide)

end TurtleLogo
