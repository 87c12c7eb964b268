import TurtleLogo.Text.Bytes

/-!
Files, and plans for what to do with them. A plan reads, writes and lists files one after
the other and may decide by what it found; carrying it out on a `FileSystem` gives its
result and the files as they are afterwards, unless it breaks down.
-/
namespace TurtleLogo.Files
open Text

abbrev Path := Bytes

def slash : UInt8 := 47

def isAbsolute (p : Path) : Bool := p.head? == some slash

def isHere (element : Bytes) : Bool := element.isEmpty || element == utf8 "."

def isUp (element : Bytes) : Bool := element == utf8 ".."

/-- One more element behind those gone through, the last one first: a step upward takes back the
    element before it. -/
def follow (rooted : Bool) (gone : List Bytes) (element : Bytes) : List Bytes :=
  if isHere element then gone
  else if isUp element then
    match gone with
    | [] => if rooted then [] else [element]
    | last :: before => if isUp last then element :: gone else before
  else element :: gone

/-- The shortest path that names the same place as long as there are no links. -/
def cleaned (p : Path) : Path :=
  let body := joined [slash] ((splitOn slash p).foldl (follow (isAbsolute p)) []).reverse
  if isAbsolute p then slash :: body
  else if body.isEmpty then utf8 "."
  else body

def absolute (cwd p : Path) : Path :=
  cleaned (if isAbsolute p then p else cwd ++ slash :: p)

def extension (p : Path) : Bytes :=
  let last := ((splitOn slash p).getLast?).getD []
  match (splitOn (byte '.') last).reverse with
  | tail :: _ :: _ => byte '.' :: tail
  | _ => []

def baseName (p : Path) : Bytes :=
  let bare := dropEndWhile (· == slash) p
  if p.isEmpty then utf8 "."
  else if bare.isEmpty then [slash]
  else ((splitOn slash bare).getLast?).getD []

inductive Reason where
  | invalid
  | nameTooLong
  | notFound
  | isDirectory
  | notDirectory
  | other (text : Bytes)
  deriving DecidableEq, Repr

def Reason.message : Reason → Bytes
  | invalid => utf8 "invalid argument"
  | nameTooLong => utf8 "file name too long"
  | notFound => utf8 "no such file or directory"
  | isDirectory => utf8 "is a directory"
  | notDirectory => utf8 "not a directory"
  | other text => text

structure FileError where
  action : String
  path : Path
  reason : Reason
  deriving DecidableEq, Repr

def FileError.message (e : FileError) : Bytes :=
  utf8 e.action ++ space :: e.path ++ utf8 ": " ++ e.reason.message

/-- Files by absolute path. A directory is there if something is in it or work is done in it. -/
structure FileSystem where
  cwd : Path
  files : List (Path × Bytes)
  deriving DecidableEq, Repr

/-- What a path leads to; a vacant place is one where a file can be made. -/
inductive Place where
  | file (path : Path) (contents : Bytes)
  | directory (path : Path)
  | vacant (path : Path)
  deriving DecidableEq, Repr

namespace FileSystem

def within (dir : Path) : Path := if dir == [slash] then dir else dir ++ [slash]

def above (dir : Path) : Path :=
  let shorter := (dropEndWhile (· != slash) dir).dropLast
  if shorter.isEmpty then [slash] else shorter

def get? (fs : FileSystem) (p : Path) : Option Bytes := fs.files.lookup p

def hasDirectory (fs : FileSystem) (p : Path) : Bool :=
  p == [slash] || p == fs.cwd ||
    (fs.cwd :: fs.files.map Prod.fst).any fun q => (within p).isPrefixOf q

def elementLimit : Nat := 255

def pathLimit : Nat := 4096

def descend (fs : FileSystem) (dir : Path) : List Bytes → Except Reason Place
  | [] => .ok (.directory dir)
  | element :: rest =>
    if isHere element then fs.descend dir rest
    else if isUp element then fs.descend (above dir) rest
    else if elementLimit < element.length then .error .nameTooLong
    else
      let here := within dir ++ element
      match fs.get? here with
      | some contents => if rest.isEmpty then .ok (.file here contents) else .error .notDirectory
      | none =>
        if fs.hasDirectory here then fs.descend here rest
        else if rest.isEmpty then .ok (.vacant here)
        else .error .notFound

def endsInSlash (p : Path) : Bool := p.getLast? == some slash

def locate (fs : FileSystem) (p : Path) : Except Reason Place :=
  if p.contains 0 then .error .invalid
  else if pathLimit ≤ p.length then .error .nameTooLong
  else if p.isEmpty then .error .notFound
  else
    fs.descend (if isAbsolute p then [slash] else fs.cwd)
      (splitOn slash (dropEndWhile (· == slash) p))

def read (fs : FileSystem) (p : Path) : Except FileError Bytes :=
  match fs.locate p with
  | .error reason => .error ⟨"open", p, reason⟩
  | .ok (.vacant _) => .error ⟨"open", p, .notFound⟩
  | .ok (.directory _) => .error ⟨"read", p, .isDirectory⟩
  | .ok (.file _ contents) =>
    if endsInSlash p then .error ⟨"open", p, .notDirectory⟩ else .ok contents

def put (files : List (Path × Bytes)) (p : Path) (contents : Bytes) : List (Path × Bytes) :=
  match files with
  | [] => [(p, contents)]
  | (q, old) :: rest => if q == p then (q, contents) :: rest else (q, old) :: put rest p contents

def target (fs : FileSystem) (p : Path) : Except FileError Path :=
  match fs.locate p with
  | .error reason => .error ⟨"open", p, reason⟩
  | .ok (.directory _) => .error ⟨"open", p, .isDirectory⟩
  | .ok (.file place _) | .ok (.vacant place) =>
    if endsInSlash p then .error ⟨"open", p, .isDirectory⟩ else .ok place

def write (fs : FileSystem) (p : Path) (contents : Bytes) : Except FileError FileSystem :=
  (fs.target p).map fun place => { fs with files := put fs.files place contents }

def list (fs : FileSystem) (p : Path) : Except FileError (List Path) :=
  match fs.locate p with
  | .error reason => .error ⟨"lstat", p, reason⟩
  | .ok (.vacant _) => .error ⟨"lstat", p, .notFound⟩
  | .ok (.directory dir) => .ok ((fs.files.map Prod.fst).filter fun q => (within dir).isPrefixOf q)
  | .ok (.file place _) =>
    if endsInSlash p then .error ⟨"lstat", p, .notDirectory⟩ else .ok [place]

end FileSystem

/-- A plan that ends in a result, or breaks down and leaves a message. -/
inductive Plan (α : Type) where
  | done (result : α)
  | halt (message : Bytes)
  | here (next : Path → Plan α)
  | read (path : Path) (next : Except FileError Bytes → Plan α)
  | write (path : Path) (contents : Bytes) (next : Except FileError Unit → Plan α)
  | list (path : Path) (next : Except FileError (List Path) → Plan α)

namespace Plan

def bind {α β : Type} (t : Plan α) (f : α → Plan β) : Plan β :=
  match t with
  | done result => f result
  | halt message => halt message
  | here next => here fun cwd => (next cwd).bind f
  | read path next => read path fun r => (next r).bind f
  | write path contents next => write path contents fun r => (next r).bind f
  | list path next => list path fun r => (next r).bind f

instance : Monad Plan where
  pure := done
  bind := bind

def on {α : Type} (fs : FileSystem) : Plan α → Except Bytes (α × FileSystem)
  | done result => .ok (result, fs)
  | halt message => .error message
  | here next => (next fs.cwd).on fs
  | read path next => (next (fs.read path)).on fs
  | write path contents next =>
    match fs.write path contents with
    | .ok written => (next (.ok ())).on written
    | .error e => (next (.error e)).on fs
  | list path next => (next (fs.list path)).on fs

def readFile (path : Path) : Plan (Except FileError Bytes) := read path done

def writeFile (path : Path) (contents : Bytes) : Plan (Except FileError Unit) :=
  write path contents done

def listFiles (path : Path) : Plan (Except FileError (List Path)) := list path done

def absolutePath (path : Path) : Plan Path := here fun cwd => done (absolute cwd path)

end Plan
end TurtleLogo.Files
