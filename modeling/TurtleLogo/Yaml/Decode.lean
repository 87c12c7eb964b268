import TurtleLogo.Yaml.Complaint
import TurtleLogo.Yaml.Datum

/-!
What the nodes of a document stand for. References are followed, but never into themselves,
and a document in which nearly everything is behind references is refused. What a mapping
says is merged into it gives way to what the mapping itself says.
-/
namespace TurtleLogo.Yaml
open Text

/-- How many nodes were met, how many of them behind references, and what there is to complain
    about. While mappings are merged into another one, `settled` holds the keys that are there
    already. -/
structure Tally where
  met : Nat
  borrowed : Nat
  complaints : Array Complaint
  settled : Option (List Datum)

namespace Tally

def start : Tally := ⟨1, 0, #[], none⟩

def fewNodes : Nat := 400000

def manyNodes : Nat := 4000000

/-- The share of nodes behind references is limited once there are enough of both: it may be up to
    99 of 100 where few nodes were met, one of ten where many were, and between them it falls
    evenly. -/
def isExcessive (t : Tally) : Bool :=
  let span := manyNodes - fewNodes
  let excess := min (t.met - fewNodes) span
  100 < t.borrowed && 1000 < t.met &&
    t.met * (99 * span - 89 * excess) < 100 * span * t.borrowed

end Tally

abbrev Decoding := StateT Tally (Except Failure)

def complain (more : List Complaint) : Decoding Unit :=
  modify fun t => { t with complaints := t.complaints ++ more.toArray }

def meet (path : List Nat) : Decoding Unit := do
  let t ← get
  let t := { t with
    met := t.met + 1
    borrowed := if path.isEmpty then t.borrowed else t.borrowed + 1 }
  if t.isExcessive then throw .excessiveReferences else set t

def follow (d : Document) (path : List Nat) (node : Node) : Decoding (List Nat × Node) := do
  meet path
  match node with
  | .reference _ name number target =>
    if path.contains number then throw (.selfContained name)
    else
      meet (number :: path)
      return (number :: path, d.target target)
  | _ => return (path, node)

inductive Found (α : Type) where
  | nothing
  | value (a : α)
  | wrong

def readAs {α : Type} (d : Document) (path : List Nat) (type : (tag : Bytes) → String)
    (convert : Value → (written : Bytes) → Option α) (node : Node) : Decoding (Found α) := do
  match (← follow d path node).2 with
  | .scalar line tag written =>
    let value ← valueOf tag written
    match value, convert value written with
    | .null, _ => return .nothing
    | _, some a => return .value a
    | _, none =>
      complain [.wrongType line tag written (type [])]
      return .wrong
  | .sequence line tag _ =>
    complain [.wrongType line tag [] (type tag)]
    return .wrong
  | .mapping line tag entries =>
    match Node.repetitions (entries.map Prod.fst) with
    | [] => complain [.wrongType line tag [] (type tag)]
    | more => complain more
    return .wrong
  | .reference .. => return .wrong

def asText (value : Value) (written : Bytes) : Option Bytes :=
  match value with
  | .text t => some t
  | _ => some written

def readText (d : Document) (path : List Nat) (node : Node) : Decoding (Found Bytes) :=
  readAs d path (fun _ => "string") asText node

/-- Adds a key to those that are settled, and tells whether it was there. A list or a table cannot
    be looked up. -/
def settleIn (settled : List Datum) (key : Datum) : Decoding (List Datum × Bool) :=
  match key.collectionType? with
  | some type => throw (.unhashable type)
  | none => return if settled.any key.isSame then (settled, true) else (key :: settled, false)

def mergedValue? (entries : List (Node × Node)) : Option Node :=
  (entries.find? fun entry => entry.1.isMerge).map Prod.snd

def mergeEach {α : Type} (d : Document) (takeIn : α → Node → Decoding α) (a : α) (value : Node) :
    Decoding α :=
  let takeMapping (a : α) (node : Node) :=
    if d.isMapping node then takeIn a node else throw .mergeWithoutMapping
  match value with
  | .sequence _ _ items => items.foldlM takeMapping a
  | _ => takeMapping a value

def apart {α : Type} (work : Option (List Datum) → Decoding (α × Option (List Datum))) :
    Decoding α := do
  let settled := (← get).settled
  modify ({ · with settled := none })
  let (a, settled) ← work settled
  modify ({ · with settled })
  return a

def withSettled {α : Type} (settleAll : Decoding Unit) (work : Decoding α) : Decoding α := do
  if (← get).settled.isSome then work
  else
    modify ({ · with settled := some [] })
    settleAll
    let a ← work
    modify ({ · with settled := none })
    return a

def isTextual (d : Document) (entries : List (Node × Node)) : Bool :=
  entries.all fun entry =>
    let tag := d.tagOf entry.1
    tag == utf8 "!!str" || tag == Node.mergeTag

mutual

def datum (d : Document) : Nat → (path : List Nat) → Node → Decoding (Option Datum)
  | 0, _, _ => return none
  | n + 1, path, node => do
    let (path, node) ← follow d path node
    match node with
    | .scalar _ tag written => return some (.scalar (← valueOf tag written))
    | .sequence _ _ items => return some (.list (← items.filterMapM (datum d n path)))
    | .mapping _ _ entries =>
      match Node.repetitions (entries.map Prod.fst) with
      | [] =>
        let textual := isTextual d entries
        return some (.table textual (← fillTable d n path textual [] entries))
      | more =>
        complain more
        return none
    | .reference .. => return none
termination_by structural fuel => fuel

def fillTable (d : Document) : Nat → (path : List Nat) → (textual : Bool) →
    List (Datum × Datum) → List (Node × Node) → Decoding (List (Datum × Datum))
  | 0, _, _, table, _ => return table
  | n + 1, path, textual, table, entries => do
    let table ← apart fun settled =>
      entries.foldlM (fun (table, settled) entry => fillEntry d n path textual table settled entry)
        (table, settled)
    match mergedValue? entries with
    | none => return table
    | some value =>
      withSettled (settleKeys d n path entries)
        (mergeEach d (fun table node => fillFrom d n path textual table node) table value)
termination_by structural fuel => fuel

def fillEntry (d : Document) : Nat → (path : List Nat) → (textual : Bool) →
    List (Datum × Datum) → Option (List Datum) → Node × Node →
    Decoding (List (Datum × Datum) × Option (List Datum))
  | 0, _, _, table, settled, _ => return (table, settled)
  | n + 1, path, textual, table, settled, (key, value) => do
    if key.isMerge then return (table, settled)
    let key? ←
      if textual then
        match ← readText d path key with
        | .value text => pure (some (Datum.scalar (.text text)))
        | _ => pure none
      else datum d n path key
    match key?, settled with
    | none, _ => return (table, settled)
    | some key, some keys =>
      let (keys, wasThere) ← settleIn keys key
      if wasThere then return (table, some keys)
      else
        match ← datum d n path value with
        | some value => return (Datum.put key value table, some keys)
        | none => return (table, some keys)
    | some key, none =>
      if key.collectionType?.isSome then throw (.invalidKey key.shown)
      match ← datum d n path value with
      | some value => return (Datum.put key value table, none)
      | none => return (table, none)
termination_by structural fuel => fuel

def fillFrom (d : Document) : Nat → (path : List Nat) → (textual : Bool) →
    List (Datum × Datum) → Node → Decoding (List (Datum × Datum))
  | 0, _, _, table, _ => return table
  | n + 1, path, textual, table, node => do
    match ← follow d path node with
    | (path, .mapping _ _ entries) =>
      match Node.repetitions (entries.map Prod.fst) with
      | [] => fillTable d n path textual table entries
      | more =>
        complain more
        return table
    | _ => return table
termination_by structural fuel => fuel

def settleKeys (d : Document) : Nat → (path : List Nat) → List (Node × Node) → Decoding Unit
  | 0, _, _ => return
  | n + 1, path, entries =>
    entries.forM fun entry => do
      match ← datum d n path entry.1 with
      | none => return
      | some key =>
        let (settled, _) ← settleIn ((← get).settled.getD []) key
        modify ({ · with settled := some settled })
termination_by structural fuel => fuel

end

/-- More steps than it takes to go from a node to any part of it, through every reference once. -/
def Document.reach (d : Document) : Nat := 4 * (d.bound + 1) * (d.bound + 1)

end TurtleLogo.Yaml
