import TurtleLogo.Files
import TurtleLogo.Proofs.Text.Bytes

/-!
What plans do to files. A file that is written holds what was written last, and every other file
stays as it was. A plan leaves the files as its writes make them, and one that never writes leaves
them as they are, also if it breaks down. What always comes of a plan does so on any files.
-/
namespace TurtleLogo.Files
open Text

namespace FileSystem

theorem lookup_put (files : List (Path × Bytes)) (place q : Path) (contents : Bytes) :
    (put files place contents).lookup q =
      if q = place then some contents else files.lookup q := by
  induction files with
  | nil => rw [put, lookup_cons]
  | cons entry rest ih =>
    by_cases found : entry.1 = place
    · rw [put, if_pos (beq_iff_eq.mpr found), lookup_cons, lookup_cons, found]
      by_cases same : q = place
      · rw [if_pos same, if_pos same]
      · rw [if_neg same, if_neg same, if_neg same]
    · rw [put, if_neg (by simpa using found), lookup_cons, lookup_cons, ih]
      by_cases first : q = entry.1
      · rw [if_pos first, if_pos first, if_neg (first ▸ found)]
      · rw [if_neg first, if_neg first]

def holding (fs : FileSystem) (place : Path) (contents : Bytes) : FileSystem :=
  { fs with files := put fs.files place contents }

theorem get?_holding (fs : FileSystem) (place q : Path) (contents : Bytes) :
    (fs.holding place contents).get? q = if q = place then some contents else fs.get? q :=
  lookup_put fs.files place q contents

theorem write_of_target {fs : FileSystem} {p place : Path} (found : fs.target p = .ok place)
    (contents : Bytes) : fs.write p contents = .ok (fs.holding place contents) := by
  rw [write, found]
  rfl

theorem write_of_no_target {fs : FileSystem} {p : Path} {e : FileError}
    (found : fs.target p = .error e) (contents : Bytes) : fs.write p contents = .error e := by
  rw [write, found]
  rfl

end FileSystem

namespace Plan
variable {α β : Type} {fs left : FileSystem}

theorem on_bind (t : Plan α) (f : α → Plan β) (fs : FileSystem) :
    (t >>= f).on fs =
      match t.on fs with
      | .ok (a, left) => (f a).on left
      | .error message => .error message := by
  induction t generalizing fs with
  | done result => rfl
  | halt message => rfl
  | here next ih => exact ih fs.cwd fs
  | read path next ih => exact ih (fs.read path) fs
  | list path next ih => exact ih (fs.list path) fs
  | write path contents next ih =>
    have sequenced : write path contents next >>= f = write path contents fun r => next r >>= f :=
      rfl
    rw [sequenced, on, on]
    cases fs.write path contents with
    | ok written => exact ih (.ok ()) written
    | error e => exact ih (.error e) fs

theorem on_bind_eq_ok {t : Plan α} {f : α → Plan β} {b : β}
    (ran : (t >>= f).on fs = .ok (b, left)) :
    ∃ a mid, t.on fs = .ok (a, mid) ∧ (f a).on mid = .ok (b, left) := by
  rw [on_bind] at ran
  cases first : t.on fs with
  | error message =>
    rw [first] at ran
    cases ran
  | ok reached =>
    rw [first] at ran
    exact ⟨reached.1, reached.2, rfl, ran⟩

theorem on_pure (a : α) (fs : FileSystem) : (pure a : Plan α).on fs = .ok (a, fs) := rfl

theorem on_readFile (path : Path) (fs : FileSystem) :
    (readFile path).on fs = .ok (fs.read path, fs) := rfl

theorem on_listFiles (path : Path) (fs : FileSystem) :
    (listFiles path).on fs = .ok (fs.list path, fs) := rfl

theorem on_writeFile (path : Path) (contents : Bytes) (fs : FileSystem) :
    (writeFile path contents).on fs =
      match fs.target path with
      | .ok place => .ok (.ok (), fs.holding place contents)
      | .error e => .ok (.error e, fs) := by
  rw [writeFile, on]
  cases found : fs.target path with
  | ok place =>
    rw [FileSystem.write_of_target found]
    rfl
  | error e =>
    rw [FileSystem.write_of_no_target found]
    rfl

/-- The places that are written while a plan is carried out and what is written there, in order. A
    plan that breaks down has written something before or has not. -/
def writes (fs : FileSystem) : Plan α → List (Path × Bytes)
  | done _ | halt _ => []
  | here next => (next fs.cwd).writes fs
  | read path next => (next (fs.read path)).writes fs
  | list path next => (next (fs.list path)).writes fs
  | write path contents next =>
    match fs.target path with
    | .ok place => (place, contents) :: (next (.ok ())).writes (fs.holding place contents)
    | .error e => (next (.error e)).writes fs

theorem left_eq_writes {a : α} {t : Plan α} (ran : t.on fs = .ok (a, left)) :
    left = (t.writes fs).foldl (fun fs (place, contents) => fs.holding place contents) fs := by
  induction t generalizing fs with
  | done result =>
    cases ran
    rfl
  | halt message => cases ran
  | here next ih => exact ih _ ran
  | read path next ih => exact ih _ ran
  | list path next ih => exact ih _ ran
  | write path contents next ih =>
    rw [on] at ran
    rw [writes]
    cases found : fs.target path with
    | ok place =>
      rw [FileSystem.write_of_target found] at ran
      exact ih _ ran
    | error e =>
      rw [FileSystem.write_of_no_target found] at ran
      exact ih _ ran

theorem writes_bind (t : Plan α) (f : α → Plan β) (fs : FileSystem) :
    (t >>= f).writes fs = t.writes fs ++
      match t.on fs with
      | .ok (a, left) => (f a).writes left
      | .error _ => [] := by
  induction t generalizing fs with
  | done result => rfl
  | halt message => rfl
  | here next ih => exact ih fs.cwd fs
  | read path next ih => exact ih (fs.read path) fs
  | list path next ih => exact ih (fs.list path) fs
  | write path contents next ih =>
    have sequenced : write path contents next >>= f = write path contents fun r => next r >>= f :=
      rfl
    rw [sequenced, writes, writes, on]
    cases found : fs.target path with
    | ok place =>
      rw [FileSystem.write_of_target found]
      exact congrArg ((place, contents) :: ·) (ih (.ok ()) _)
    | error e =>
      rw [FileSystem.write_of_no_target found]
      exact ih (.error e) fs

inductive Silent : Plan α → Prop where
  | done (result : α) : Silent (.done result)
  | halt (message : Bytes) : Silent (.halt message)
  | here {next : Path → Plan α} (all : ∀ cwd, Silent (next cwd)) : Silent (.here next)
  | read {path : Path} {next : Except FileError Bytes → Plan α}
      (all : ∀ found, Silent (next found)) : Silent (.read path next)
  | list {path : Path} {next : Except FileError (List Path) → Plan α}
      (all : ∀ found, Silent (next found)) : Silent (.list path next)

namespace Silent

theorem bind {t : Plan α} {f : α → Plan β} (first : t.Silent) (second : ∀ a, (f a).Silent) :
    (t >>= f).Silent := by
  induction first with
  | done result => exact second result
  | halt message => exact .halt message
  | here _ ih => exact .here ih
  | read _ ih => exact .read ih
  | list _ ih => exact .list ih

theorem writes_nil {t : Plan α} (silent : t.Silent) (fs : FileSystem) : t.writes fs = [] := by
  induction silent with
  | done result => rfl
  | halt message => rfl
  | here _ ih => exact ih fs.cwd
  | read _ ih => exact ih _
  | list _ ih => exact ih _

theorem on_same {a : α} {t : Plan α} (silent : t.Silent) (ran : t.on fs = .ok (a, left)) :
    left = fs := by
  rw [left_eq_writes ran, silent.writes_nil]
  rfl

end Silent

variable {P : α → Prop}

/-- Whatever the files are, a result has the property. -/
inductive Always (P : α → Prop) : Plan α → Prop where
  | done {result : α} (holds : P result) : Always P (.done result)
  | halt (message : Bytes) : Always P (.halt message)
  | here {next : Path → Plan α} (all : ∀ cwd, Always P (next cwd)) : Always P (.here next)
  | read {path : Path} {next : Except FileError Bytes → Plan α}
      (all : ∀ found, Always P (next found)) : Always P (.read path next)
  | write {path : Path} {contents : Bytes} {next : Except FileError Unit → Plan α}
      (all : ∀ written, Always P (next written)) : Always P (.write path contents next)
  | list {path : Path} {next : Except FileError (List Path) → Plan α}
      (all : ∀ found, Always P (next found)) : Always P (.list path next)

theorem always_of_forall (all : ∀ a, P a) (t : Plan α) : t.Always P := by
  induction t with
  | done result => exact .done (all result)
  | halt message => exact .halt message
  | here next ih => exact .here ih
  | read path next ih => exact .read ih
  | write path contents next ih => exact .write ih
  | list path next ih => exact .list ih

theorem Always.pure {a : α} (holds : P a) : (pure a : Plan α).Always P := .done holds

theorem Always.bind {Q : β → Prop} {f : α → Plan β} {t : Plan α} (first : t.Always P)
    (second : ∀ a, P a → (f a).Always Q) : (t >>= f).Always Q := by
  induction first with
  | done holds => exact second _ holds
  | halt message => exact .halt message
  | here _ ih => exact .here ih
  | read _ ih => exact .read ih
  | write _ ih => exact .write ih
  | list _ ih => exact .list ih

theorem Always.mono {Q : α → Prop} {t : Plan α} (always : t.Always P) (weaker : ∀ a, P a → Q a) :
    t.Always Q := by
  induction always with
  | done holds => exact .done (weaker _ holds)
  | halt message => exact .halt message
  | here _ ih => exact .here ih
  | read _ ih => exact .read ih
  | write _ ih => exact .write ih
  | list _ ih => exact .list ih

theorem Always.on {a : α} {t : Plan α} (always : t.Always P)
    (ran : t.on fs = .ok (a, left)) : P a := by
  induction always generalizing fs with
  | done holds =>
    cases ran
    exact holds
  | halt message => cases ran
  | here _ ih => exact ih _ ran
  | read _ ih => exact ih _ ran
  | list _ ih => exact ih _ ran
  | write _ ih =>
    rw [Plan.on] at ran
    split at ran
    · exact ih _ ran
    · exact ih _ ran

end Plan
end TurtleLogo.Files
