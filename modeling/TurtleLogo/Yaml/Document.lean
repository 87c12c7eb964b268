import TurtleLogo.Yaml.Feed
import TurtleLogo.Yaml.Node

/-!
The first document of a YAML text, put together from its tokens. Nothing behind the
document is looked at but the tokens that were read ahead. Each step, which finds a scalar,
a reference or where a collection begins or ends, shows the trouble with the text that was
noticed in it, unless the tokens themselves are wrong.
-/
namespace TurtleLogo.Yaml
open Text

/-- The nodes that have a name so far, without content as long as they are unfinished, the names
    with the numbers of their nodes, the last one first, the number of references, and what the
    handles of tags stand for. -/
structure Builder where
  feed : Feed
  named : Array Node
  anchors : List (Bytes × Nat)
  references : Nat
  handles : List (Bytes × Bytes)

abbrev Building := StateT Builder (Except Failure)

def feeding {α : Type} (r : Feeding α) : Building α := fun b =>
  match r b.feed with
  | .ok a f => .ok (a, { b with feed := f })
  | .error blame _ => .error blame.failure

def attempting {α : Type} (r : Feeding α) : Building (Option α) := fun b =>
  match r b.feed with
  | .ok a f => .ok (some a, { b with feed := f })
  | .error _ f => .ok (none, { b with feed := f })

def next : Building Token := feeding peek

def accept : Building Unit := feeding advance

def endStep : Building Unit := feeding (reading settle)

def takeAbove : Building Unit :=
  modify fun b => { b with feed := { b.feed with above := [] } }

def leftOut (line : Nat) : Building Node := do
  endStep
  return Node.empty (line + 1)

def close {α : Type} : Building (List α) := do
  accept
  endStep
  return []

/-- Accepts the mark of an item. If there are comments above it, what follows is looked at before:
    they go with a block that begins there, and a fault that is noticed then is left aside for the
    moment. -/
def acceptItem : Building Unit := do
  let count := (← get).feed.above.length
  accept
  if count != 0 then
    match (← attempting peek).map Token.kind with
    | some .blockSequenceStart | some .blockMappingStart =>
      modify fun b =>
        let above := b.feed.above
        { b with feed := { b.feed with above := above.take (above.length - count - 1) } }
    | _ => return

def misplaced {α : Type} (begun : Nat) (t : Token) (text : String) : Building α :=
  throw (Blame.failure ⟨text, begun, t.line, false⟩)

structure Properties where
  line : Nat
  anchor : Option Bytes
  tag : Bytes
  deriving DecidableEq, Repr

def Properties.arePresent (p : Properties) : Bool := p.anchor.isSome || !p.tag.isEmpty

def expandTag (begun line : Nat) (handle suffix : Bytes) : Building Bytes := do
  if handle.isEmpty then return suffix
  else match (← get).handles.lookup handle with
    | some expansion => return expansion ++ suffix
    | none => throw (Blame.failure ⟨"found undefined tag handle", begun, line, false⟩)

def takeProperties : Building Properties := do
  let first ← next
  let begun := first.line
  match first.kind with
  | .anchor name =>
    accept
    let second ← next
    match second.kind with
    | .tag handle suffix =>
      accept
      discard next
      return ⟨begun, some name, ← expandTag begun second.line handle suffix⟩
    | _ => return ⟨begun, some name, []⟩
  | .tag handle suffix =>
    accept
    let second ← next
    match second.kind with
    | .anchor name =>
      accept
      discard next
      return ⟨begun, some name, ← expandTag begun begun handle suffix⟩
    | _ => return ⟨begun, none, ← expandTag begun begun handle suffix⟩
  | _ => return ⟨begun, none, []⟩

def name (p : Properties) (node : Node) : Building Unit := do
  match p.anchor with
  | some name =>
    modify fun b =>
      { b with named := b.named.push node, anchors := (name, b.named.size) :: b.anchors }
  | none => return

def complete (p : Properties) (number : Nat) (node : Node) : Building Node := do
  if p.anchor.isSome then
    modify fun b => { b with named := b.named.setIfInBounds number node }
  return node

def collection {α : Type} (p : Properties) (make : Nat → Bytes → List α → Node)
    (content : Building (List α)) : Building Node := do
  endStep
  let number := (← get).named.size
  name p (make (p.line + 1) p.tag [])
  complete p number (make (p.line + 1) p.tag (← content))

def namedScalar (p : Properties) (plain : Bool) (text : Bytes) : Building Node := do
  endStep
  let node := Node.ofScalar (p.line + 1) p.tag plain text
  name p node
  return node

def referenceTo (line : Nat) (named : Bytes) : Building Node := do
  let b ← get
  match b.anchors.lookup named with
  | some target =>
    set { b with references := b.references + 1 }
    return .reference (line + 1) named b.references target
  | none => throw (.unknownAnchor named)

def endsPart : TokenKind → Bool
  | .key | .value | .blockEnd => true
  | _ => false

def endsFlowItem : TokenKind → Bool
  | .flowEntry | .flowSequenceEnd => true
  | _ => false

def endsFlowPart : TokenKind → Bool
  | .flowEntry | .flowMappingEnd => true
  | _ => false

mutual

/-- A node. Block collections begin only where `block` holds, and a sequence that is indented no
    deeper than the mapping it is in only where `indentless` does. -/
def node (block indentless : Bool) : Nat → Building Node
  | 0 => return Node.empty 0
  | n + 1 => do
    let first ← next
    match first.kind with
    | .reference named =>
      takeAbove
      accept
      endStep
      referenceTo first.line named
    | _ =>
      let p ← takeProperties
      let t ← next
      match t.kind, block, indentless with
      | .blockEntry, _, true => collection p Node.ofItems (indentlessItems n)
      | .scalar plain text, _, _ =>
        takeAbove
        accept
        namedScalar p plain text
      | .flowSequenceStart, _, _ =>
        takeAbove
        collection p Node.ofItems do
          accept
          flowItems t.line true n
      | .flowMappingStart, _, _ =>
        takeAbove
        collection p Node.ofEntries do
          accept
          flowEntries t.line true n
      | .blockSequenceStart, true, _ =>
        collection p Node.ofItems do
          accept
          blockItems t.line n
      | .blockMappingStart, true, _ =>
        collection p Node.ofEntries do
          accept
          blockEntries t.line n
      | _, _, _ =>
        if p.arePresent then namedScalar p true []
        else misplaced p.line t "did not find expected node content"
termination_by structural fuel => fuel

def blockItems (begun : Nat) : Nat → Building (List Node)
  | 0 => return []
  | n + 1 => do
    let t ← next
    match t.kind with
    | .blockEntry =>
      acceptItem
      let behind ← next
      let item ← match behind.kind with
        | .blockEntry | .blockEnd => leftOut t.line
        | _ => node true false n
      return item :: (← blockItems begun n)
    | .blockEnd => close
    | _ => misplaced begun t "did not find expected '-' indicator"
termination_by structural fuel => fuel

def indentlessItems : Nat → Building (List Node)
  | 0 => return []
  | n + 1 => do
    let t ← next
    match t.kind with
    | .blockEntry =>
      acceptItem
      let behind ← next
      let item ←
        if behind.kind == .blockEntry || endsPart behind.kind then leftOut t.line
        else node true false n
      return item :: (← indentlessItems n)
    | _ =>
      endStep
      return []
termination_by structural fuel => fuel

def blockEntries (begun : Nat) : Nat → Building (List (Node × Node))
  | 0 => return []
  | n + 1 => do
    let t ← next
    match t.kind with
    | .key =>
      accept
      let key ← blockPart t.line n
      let value ← blockValue n
      return (key, value) :: (← blockEntries begun n)
    | .blockEnd =>
      takeAbove
      close
    | _ => misplaced begun t "did not find expected key"
termination_by structural fuel => fuel

def blockPart (line : Nat) : Nat → Building Node
  | 0 => return Node.empty (line + 1)
  | n + 1 => do
    let t ← next
    if endsPart t.kind then leftOut line else node true true n
termination_by structural fuel => fuel

def blockValue : Nat → Building Node
  | 0 => return Node.empty 0
  | n + 1 => do
    let t ← next
    if t.kind == .value then
      accept
      blockPart t.line n
    else leftOut t.line
termination_by structural fuel => fuel

def flowItems (begun : Nat) (first : Bool) : Nat → Building (List Node)
  | 0 => return []
  | n + 1 => do
    let t ← next
    if t.kind == .flowSequenceEnd then
      takeAbove
      close
    else
      if !first then
        if t.kind == .flowEntry then accept
        else misplaced begun t "did not find expected ',' or ']'"
      let t ← next
      match t.kind with
      | .flowSequenceEnd =>
        takeAbove
        close
      | .key =>
        accept
        endStep
        let key ← flowPairKey n
        let value ← flowPairValue n
        discard next
        endStep
        let item := Node.ofEntries (t.line + 1) [] [(key, value)]
        return item :: (← flowItems begun false n)
      | _ =>
        let item ← node false false n
        return item :: (← flowItems begun false n)
termination_by structural fuel => fuel

/-- The key of a pair among the items of a sequence. What stands in place of a key that is left out
    is passed over. -/
def flowPairKey : Nat → Building Node
  | 0 => return Node.empty 0
  | n + 1 => do
    let t ← next
    if t.kind == .value || endsFlowItem t.kind then
      accept
      leftOut t.line
    else node false false n
termination_by structural fuel => fuel

def flowPairValue : Nat → Building Node
  | 0 => return Node.empty 0
  | n + 1 => do
    let t ← next
    if t.kind == .value then
      accept
      let behind ← next
      if endsFlowItem behind.kind then leftOut t.line else node false false n
    else leftOut t.line
termination_by structural fuel => fuel

def flowEntries (begun : Nat) (first : Bool) : Nat → Building (List (Node × Node))
  | 0 => return []
  | n + 1 => do
    let t ← next
    if t.kind == .flowMappingEnd then
      takeAbove
      close
    else
      if !first then
        if t.kind == .flowEntry then accept
        else misplaced begun t "did not find expected ',' or '\x7d'"
      let t ← next
      match t.kind with
      | .flowMappingEnd =>
        takeAbove
        close
      | .key =>
        accept
        let behind ← next
        let key ←
          if behind.kind == .value || endsFlowPart behind.kind then leftOut behind.line
          else node false false n
        let value ← flowValue n
        return (key, value) :: (← flowEntries begun false n)
      | _ =>
        let key ← node false false n
        let value ← leftOut (← next).line
        return (key, value) :: (← flowEntries begun false n)
termination_by structural fuel => fuel

def flowValue : Nat → Building Node
  | 0 => return Node.empty 0
  | n + 1 => do
    let t ← next
    if t.kind == .value then
      accept
      let behind ← next
      if endsFlowPart behind.kind then leftOut behind.line else node false false n
    else leftOut t.line
termination_by structural fuel => fuel

end

def isDirective : TokenKind → Bool
  | .versionDirective .. | .tagDirective .. => true
  | _ => false

def standardHandles : List (Bytes × Bytes) := [(utf8 "!", utf8 "!"), (utf8 "!!", Node.commonTag)]

def takeDirectives : Nat → (versioned : Bool) → Building Unit
  | 0, _ => return
  | n + 1, versioned => do
    let t ← next
    match t.kind with
    | .versionDirective major minor =>
      if versioned then misplaced 0 t "found duplicate %YAML directive"
      if major != 1 || minor != 1 then misplaced 0 t "found incompatible YAML document"
      accept
      takeDirectives n true
    | .tagDirective handle expansion =>
      let b ← get
      if (b.handles.lookup handle).isSome then misplaced 0 t "found duplicate %TAG directive"
      set { b with handles := b.handles ++ [(handle, expansion)] }
      accept
      takeDirectives n versioned
    | _ => modify fun b => { b with handles := b.handles ++ standardHandles }

def isContentEnd : TokenKind → Bool
  | .documentStart | .documentEnd | .streamEnd => true
  | kind => isDirective kind

def document (fuel : Nat) : Building (Option Node) := do
  discard next
  accept
  endStep
  let t ← next
  if t.kind == .streamEnd then
    endStep
    return none
  else
    takeDirectives fuel false
    let explicit := t.kind == .documentStart || isDirective t.kind
    if explicit then
      let start ← next
      if start.kind != .documentStart then
        misplaced 0 start "did not find expected <document start>"
      accept
    else
      modify fun b => { b with feed := { b.feed with above := lastParagraph b.feed.above } }
    endStep
    let content ← next
    let root ←
      if explicit && isContentEnd content.kind then leftOut content.line else node true false fuel
    discard next
    endStep
    return some root

/-- The first document; none where there is no document, and an empty scalar where it holds
    nothing. -/
def read (text : Bytes) : Except Failure (Option Document) := do
  let cs := characters text
  let feed ← match need 1 (Cursor.start cs) with
    | .ok _ cursor => pure { Feed.start cs with cursor }
    | .error blame _ => throw blame.failure
  let bound := 16 * cs.length + 64
  let (root, b) ← document bound ⟨feed, #[], [], 0, []⟩
  return root.map fun root => ⟨root, b.named, bound⟩

end TurtleLogo.Yaml
