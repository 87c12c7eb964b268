import TurtleLogo.Yaml.Block
import TurtleLogo.Yaml.Comment
import TurtleLogo.Yaml.Scalar
import TurtleLogo.Yaml.Token

/-!
Tokens as they are asked for. A key need not be marked as one: that a scalar or a bracket
is a key shows only at the colon behind it, so tokens wait in a queue until it is known
whether the mark of a key, or of the mapping it begins, goes before them. At least three
tokens are in the queue when one is handed out. Where a fault is noticed, what was read so
far stays, and reading can go on.
-/
namespace TurtleLogo.Yaml
open Text

/-- A place where a key may have begun, at the token of a number. It is required where nothing else
    can stand there. -/
structure PossibleKey where
  possible : Bool
  required : Bool
  number : Nat
  mark : Mark
  deriving DecidableEq, Repr

/-- The tokens read ahead, behind `taken` tokens that were handed out. Block collections are open at
    the columns `indent` and `indents`, and `keys` holds a possible key for every open bracket and
    one for outside, the innermost first. In `waiting` are the numbers of tokens held back, each
    with the count of brackets around the possible key for which it is. In `comments` are those not
    taken up yet, and `above` is the text of those above the token at hand, the last rune first. -/
structure Feed where
  cursor : Cursor
  queue : List Token
  taken : Nat
  indent : Int
  indents : List Int
  keys : List PossibleKey
  waiting : List (Nat × Nat)
  flow : Nat
  keyAllowed : Bool
  ready : Bool
  comments : List Comment
  above : List Rune
  deriving DecidableEq, Repr

abbrev Feeding := EStateM Blame Feed

namespace Feed

def noKey (number : Nat) (mark : Mark) : PossibleKey := ⟨false, false, number, mark⟩

def start (cs : Characters) : Feed :=
  { cursor := Cursor.start cs, queue := [⟨.streamStart, 0, 0⟩], taken := 0,
    indent := -1, indents := [], keys := [noKey 0 ⟨0, 0, 0⟩], waiting := [],
    flow := 0, keyAllowed := true, ready := false, comments := [], above := [] }

def next (f : Feed) : Nat := f.taken + f.queue.length

def key (f : Feed) : PossibleKey := f.keys.headD (noKey 0 ⟨0, 0, 0⟩)

def setKey (f : Feed) (k : PossibleKey) : Feed := { f with keys := k :: f.keys.tail }

def rejectKey (f : Feed) : Feed := f.setKey { f.key with possible := false }

def release (f : Feed) (number : Nat) : Feed :=
  { f with waiting := f.waiting.eraseP fun w => w.1 == number }

def keyAt? (f : Feed) (depth : Nat) : Option PossibleKey := f.keys[f.flow - depth]?

def add (f : Feed) (kind : TokenKind) (place : Mark) : Feed :=
  { f with queue := f.queue ++ [Token.begun kind place] }

def insert (f : Feed) (number : Nat) (t : Token) : Feed :=
  if number < f.taken then { f with queue := f.queue ++ [t] }
  else
    let place := number - f.taken
    { f with queue := f.queue.take place ++ t :: f.queue.drop place }

def lastPart? (f : Feed) : Option Token :=
  match f.queue.reverse with
  | last :: before :: _ => if last.kind == .flowEntry then some before else some last
  | queue => queue.head?

/-- Where comments here are looked for, given where the search for the token began. They are below
    the token before if they begin on the line behind it, or if that is the line with the comment
    itself on the one behind that. -/
def commentSite (f : Feed) (searched : Mark) : CommentSite :=
  let here := f.cursor.mark
  let beside := f.cursor.breaks == 0 && 1 < here.column
  let below := here.line - f.cursor.breaks + 1 + if beside then 1 else 0
  { flow := f.flow != 0
    indent := f.indent.toNat
    token := (f.lastPart?.map Token.index).getD 0
    behindColon := f.lastPart?.any fun t => t.kind == .value
    lineBelow := if 0 < searched.column then some below else none }

def beginsItems (f : Feed) : Bool :=
  match f.queue.reverse with
  | last :: before :: _ => last.kind == .blockEntry && before.kind == .blockSequenceStart
  | _ => false

/-- The last comment, if it is beside the token before the first item of a sequence, as one above
    the token here or, if it is not on the line before, above the sequence. -/
def raiseComment (f : Feed) : Feed :=
  match f.comments.reverse with
  | last :: before =>
    if f.beginsItems && last.place == .beside && !isBreak (f.cursor.ahead 0) then
      let here := f.cursor.mark
      let token := if last.start.line + 1 == here.line then here.index else last.token
      { f with comments := (({ last with place := .above, token } : Comment) :: before).reverse }
    else f
  | [] => f

def takeUp (t : Token) : List Comment → (above : List Rune) → List Comment × List Rune
  | [], above => ([], above)
  | c :: rest, above =>
    if t.index < c.token || (c.place == .above && t.kind == .blockEnd) then (c :: rest, above)
    else takeUp t rest (if c.place == .above then joinComments above c.reversed else above)

end Feed

def reading {α : Type} (r : Reader α) : Feeding α := fun f =>
  match r f.cursor with
  | .ok a c => .ok a { f with cursor := c }
  | .error b c => .error b { f with cursor := c }

def noColon {α : Type} (k : PossibleKey) (here : Mark) : Feeding α :=
  reading (stop ⟨"could not find expected ':'", k.mark.line, here.line, true⟩)

/-- Whether a colon here would make a key of what began there: keys do not go beyond a line or 1024
    characters. -/
def isInReach (k : PossibleKey) (here : Mark) : Bool :=
  k.mark.line == here.line && here.index ≤ k.mark.index + 1024

def dropKey : Feeding Unit := do
  let f ← get
  if f.key.possible then
    if f.key.required then noColon f.key f.cursor.mark
    else set (f.rejectKey.release f.key.number)

def noteKey : Feeding Unit := do
  if (← get).keyAllowed then
    dropKey
    let f ← get
    let here := f.cursor.mark
    let required := f.flow == 0 && f.indent == here.column
    let f := f.setKey ⟨true, required, f.next, here⟩
    set { f with waiting := (f.next, f.flow) :: f.waiting }

def depthLimit : Nat := 10000

def tooDeep : String := "exceeded max depth of 10000"

def enterFlow : Feeding Unit := do
  let f ← get
  let here := f.cursor.mark
  set { f with keys := Feed.noKey f.next here :: f.keys, flow := f.flow + 1 }
  if depthLimit < f.flow + 1 then reading (fail here tooDeep)

def leaveFlow : Feeding Unit := do
  let f ← get
  match f.keys with
  | inner :: outer :: rest =>
    set { f.release inner.number with keys := outer :: rest, flow := f.flow - 1 }
  | _ => return

def enterBlock (column : Nat) (number : Option Nat) (kind : TokenKind) (here : Mark) :
    Feeding Unit := do
  let f ← get
  if f.flow == 0 && f.indent < column then
    let deeper := { f with indents := f.indent :: f.indents, indent := column }
    set deeper
    if depthLimit < f.indents.length + 1 then reading (fail f.key.mark tooDeep)
    set (match number with
      | some n => deeper.insert n (Token.begun kind here)
      | none => deeper.add kind here)

def ended (column : Int) (comments : List Comment) (place : Mark) :
    (indent : Int) → (indents : List Int) → List Token × Int × List Int
  | indent, [] => ([], indent, [])
  | indent, outer :: rest =>
    if column < indent then
      let place := blockEnd indent place.index place comments
      let (ends, indent, indents) := ended column comments place outer rest
      (Token.begun .blockEnd place :: ends, indent, indents)
    else ([], indent, outer :: rest)

def leaveBlocks (column : Int) (searched : Mark) : Feeding Unit := do
  let f ← get
  if f.flow == 0 then
    let (ends, indent, indents) := ended column f.comments.reverse
      { searched with index := searched.index - 1 } f.indent f.indents
    set { f with queue := f.queue ++ ends, indent, indents }

def allowKey (allowed : Bool) : Feeding Unit := modify ({ · with keyAllowed := allowed })

def addComments (searched : Mark) : Feeding Unit := do
  let f ← get
  let found ← reading (takeComments (f.commentSite searched) searched.index)
  modify fun f => { f with comments := f.comments ++ found }

def addBeside (token : Nat) : Feeding Unit := do
  let found ← reading (takeBeside token)
  modify fun f => { f with comments := f.comments ++ found }

/-- Goes on to the next token. Tabs are gaps where no key may begin, and a line break in a block is
    where one may. -/
def toTokenWithin (searched : Mark) : Nat → Feeding Unit
  | 0 => return
  | n + 1 => do
    reading (need 1)
    let c := (← get).cursor
    if c.mark.column == 0 && c.marked then reading skip
    let f ← get
    let tabs := f.flow != 0 || !f.keyAllowed
    reading (skipWhile fun r => r == 32 || (tabs && r == 9))
    modify Feed.raiseComment
    if (← reading (ahead 0)) == rune '#' then addComments searched
    if isBreak (← reading (ahead 0)) then
      reading skipBreak
      if f.flow == 0 then allowKey true
      toTokenWithin searched n

def addMark (kind : TokenKind) (width : Nat) : Feeding Unit := do
  let here ← reading mark
  reading (skipRunes width)
  modify (·.add kind here)

def addPart (r : Reader TokenKind) : Feeding Unit := do
  noteKey
  allowKey false
  let here ← reading mark
  let kind ← reading r
  modify (·.add kind here)

def addStreamEnd : Feeding Unit := do
  modify fun f =>
    let here := f.cursor.mark
    if here.column == 0 then f
    else { f with cursor := { f.cursor with mark := ⟨here.index, here.line + 1, 0⟩ } }
  let here ← reading mark
  leaveBlocks (-1) here
  dropKey
  allowKey false
  modify (·.add .streamEnd here)

def leaveDocument : Feeding Unit := do
  leaveBlocks (-1) (← reading mark)
  dropKey
  allowKey false

def addDirective : Feeding Unit := do
  leaveDocument
  let here ← reading mark
  let kind ← reading takeDirective
  modify (·.add kind here)

def addFlowStart (kind : TokenKind) : Feeding Unit := do
  noteKey
  enterFlow
  allowKey true
  addMark kind 1

def addFlowEnd (kind : TokenKind) : Feeding Unit := do
  dropKey
  leaveFlow
  allowKey false
  addMark kind 1

def addFlowEntry : Feeding Unit := do
  dropKey
  allowKey true
  addMark .flowEntry 1

def refuse (text : String) : Feeding Unit := do reading (fail (← reading mark) text)

def addBlockEntry : Feeding Unit := do
  let f ← get
  let here := f.cursor.mark
  if f.flow == 0 then
    if !f.keyAllowed then refuse "block sequence entries are not allowed in this context"
    enterBlock here.column none .blockSequenceStart here
  dropKey
  allowKey true
  addMark .blockEntry 1

def addKey : Feeding Unit := do
  let f ← get
  let here := f.cursor.mark
  if f.flow == 0 then
    if !f.keyAllowed then refuse "mapping keys are not allowed in this context"
    enterBlock here.column none .blockMappingStart here
  dropKey
  allowKey (f.flow == 0)
  addMark .key 1

def addValue : Feeding Unit := do
  let f ← get
  let here := f.cursor.mark
  let k := f.key
  if k.possible && isInReach k here then
    set (f.insert k.number (Token.begun .key k.mark))
    enterBlock k.mark.column (some k.number) .blockMappingStart k.mark
    modify fun f => f.rejectKey.release k.number
    allowKey false
  else
    if k.possible then
      if k.required then noColon k here
      set f.rejectKey
    if f.flow == 0 then
      if !f.keyAllowed then refuse "mapping values are not allowed in this context"
      enterBlock here.column none .blockMappingStart here
    allowKey (f.flow == 0)
  addMark .value 1

def addBlockScalar (literal : Bool) : Feeding Unit := do
  dropKey
  allowKey true
  let f ← get
  let begun := f.cursor.mark
  reading skip
  let header ← reading (takeHeader begun)
  if (← reading (ahead 0)) == rune '#' then addBeside begun.index
  let text ← reading (takeBlock literal f.indent begun header)
  modify (·.add (.scalar false (ofRunes text)) begun)

def addPlain : Feeding Unit := do
  noteKey
  allowKey false
  let f ← get
  let (text, broken) ← reading (takePlain (f.flow != 0) f.indent)
  modify (·.add (.scalar true (ofRunes text)) f.cursor.mark)
  if broken then allowKey true

def beginsPlain (flow : Bool) (r behind : Rune) : Bool :=
  if r == rune '-' then !isGap behind
  else if r == rune '?' || r == rune ':' then !flow && !isSpaceOrEnd behind
  else !isSpaceOrEnd r && !isAmong ",[]\x7b\x7d#&*!|>'\"%@" r && r != 0x60

def addInner : Feeding Unit := do
  let f ← get
  let r := f.cursor.ahead 0
  let behind := f.cursor.ahead 1
  let flow := f.flow != 0
  if r == rune '[' then addFlowStart .flowSequenceStart
  else if r == 0x7B then addFlowStart .flowMappingStart
  else if r == rune ']' then addFlowEnd .flowSequenceEnd
  else if r == 0x7D then addFlowEnd .flowMappingEnd
  else if r == rune ',' then addFlowEntry
  else if r == rune '-' && isSpaceOrEnd behind then addBlockEntry
  else if r == rune '?' && (flow || isSpaceOrEnd behind) then addKey
  else if r == rune ':' && (flow || isSpaceOrEnd behind) then addValue
  else if r == rune '*' then addPart (return .reference (← takeName))
  else if r == rune '&' then addPart (return .anchor (← takeName))
  else if r == rune '!' then
    addPart do
      let (handle, suffix) ← takeTag
      return .tag handle suffix
  else if r == rune '|' && !flow then addBlockScalar true
  else if r == rune '>' && !flow then addBlockScalar false
  else if r == 39 then addPart (return .scalar false (ofRunes (← takeQuoted true)))
  else if r == 34 then addPart (return .scalar false (ofRunes (← takeQuoted false)))
  else if beginsPlain flow r behind then addPlain
  else refuse "found character that cannot start any token"

/-- The index of the token to which a comment beside the next one belongs: a colon in a block and a
    comma within brackets leave it to the token before. -/
def besideOf (f : Feed) : Nat :=
  let r := f.cursor.ahead 0
  match f.queue.getLast? with
  | some last => if r == rune (if f.flow == 0 then ':' else ',') then last.index
    else f.cursor.mark.index
  | none => f.cursor.mark.index

def fetch : Feeding Unit := do
  reading (need 1)
  let searched ← reading mark
  toTokenWithin searched ((← get).cursor.left + 1)
  leaveBlocks (← reading column) searched
  reading (need 4)
  let f ← get
  let c := f.cursor
  if c.ahead 0 == 0 then addStreamEnd
  else if c.mark.column == 0 && c.ahead 0 == rune '%' then addDirective
  else if c.atDocumentMarker then
    leaveDocument
    addMark (if c.ahead 0 == rune '-' then .documentStart else .documentEnd) 3
  else
    addInner
    let last := ((← get).queue.getLast?).map Token.kind
    if last != some .blockEntry then addBeside (besideOf f)

def fill : Nat → Feeding Unit
  | 0 => return
  | n + 1 => do
    let f ← get
    if f.queue.length < 3 then
      fetch
      fill n
    else
      match (f.waiting.lookup f.taken).bind f.keyAt? with
      | none => return
      | some k =>
        if k.possible then
          if isInReach k f.cursor.mark then
            fetch
            fill n
          else if k.required then noColon k f.cursor.mark
          else
            let giveUp (other : PossibleKey) :=
              if other.number == k.number then { other with possible := false } else other
            set { f with keys := f.keys.map giveUp }

def peek : Feeding Token := do
  let f ← get
  if !f.ready then
    fill (f.cursor.left + 4)
    modify ({ · with ready := true })
  let f ← get
  let t := (f.queue.head?).getD (Token.begun .streamEnd f.cursor.mark)
  let (comments, above) := Feed.takeUp t f.comments f.above
  set { f with comments, above }
  return t

def advance : Feeding Unit := do
  modify fun f => { f with queue := f.queue.drop 1, taken := f.taken + 1, ready := false }

end TurtleLogo.Yaml
