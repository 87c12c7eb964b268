import TurtleLogo.Editor.Document
import TurtleLogo.Json.Decode

/-!
Messages between an editor and the server: what a message from the editor says once its
JSON is decoded, and the JSON of the messages sent back.
-/
namespace TurtleLogo.Editor
open Text

/-- A message from the editor. A null id counts as none; parameters are decoded only when the
    method is known. -/
structure Inbound where
  id : Option Json
  method : Bytes
  params : Option Json

namespace Inbound

def empty : Inbound := ⟨none, [], none⟩

def setId (m : Inbound) (j : Json) : Json.Filled Inbound :=
  match j with
  | .null => ⟨{ m with id := none }, true⟩
  | _ => ⟨{ m with id := some j }, true⟩

def fields : List (Json.Field Inbound) :=
  [⟨"jsonrpc", fun m j => ⟨m, (Json.fillText [] j).sound⟩⟩,
   ⟨"id", setId⟩,
   ⟨"method", fun m j =>
      let filled := Json.fillText m.method j
      ⟨{ m with method := filled.value }, filled.sound⟩⟩,
   ⟨"params", fun m j => ⟨{ m with params := some j }, true⟩⟩]

def ofJson? (j : Json) : Option Inbound :=
  let filled := Json.fillRecord fields empty j
  if filled.sound then some filled.value else none

def ofBytes? (payload : Bytes) : Option Inbound := (Json.read? payload).bind ofJson?

end Inbound

/-- The parameters of every method: a document, its text, its changes and a place in it. Each
    method reads some of them. -/
structure Params where
  uri : Bytes
  text : Bytes
  changes : Json.Slots Bytes
  line : Int
  character : Int
  deriving DecidableEq, Repr

namespace Params

def empty : Params := ⟨[], [], Json.Slots.empty, 0, 0⟩

def textField : Json.Field Bytes := ⟨"text", Json.fillText⟩

def uriField : Json.Field Params :=
  ⟨"uri", fun p j =>
    let filled := Json.fillText p.uri j
    ⟨{ p with uri := filled.value }, filled.sound⟩⟩

def documentTextField : Json.Field Params :=
  ⟨"text", fun p j =>
    let filled := Json.fillText p.text j
    ⟨{ p with text := filled.value }, filled.sound⟩⟩

def lineField : Json.Field Params :=
  ⟨"line", fun p j =>
    let filled := Json.fillInt p.line j
    ⟨{ p with line := filled.value }, filled.sound⟩⟩

def characterField : Json.Field Params :=
  ⟨"character", fun p j =>
    let filled := Json.fillInt p.character j
    ⟨{ p with character := filled.value }, filled.sound⟩⟩

def documentField : Json.Field Params := ⟨"textDocument", Json.fillRecord [uriField]⟩

def openedField : Json.Field Params :=
  ⟨"textDocument", Json.fillRecord [uriField, documentTextField]⟩

def changesField : Json.Field Params :=
  ⟨"contentChanges", fun p j =>
    let filled := Json.fillSlots (Json.fillRecord [textField]) [] p.changes j
    ⟨{ p with changes := filled.value }, filled.sound⟩⟩

def positionField : Json.Field Params :=
  ⟨"position", Json.fillRecord [lineField, characterField]⟩

def fill (fields : List (Json.Field Params)) : Option Json → Json.Filled Params
  | none => ⟨empty, false⟩
  | some j => Json.fillRecord fields empty j

def decode? (fields : List (Json.Field Params)) (params : Option Json) : Option Params :=
  let filled := fill fields params
  if filled.sound then some filled.value else none

end Params

inductive ResponseError where
  | methodNotFound
  | invalidParams (what : String)
  deriving DecidableEq, Repr

inductive Result where
  | capabilities
  | nothing
  | completions (items : List Completion)
  | hover (hover : Hover)
  | location (uri : Bytes) (range : Range)
  | symbols (symbols : List Symbol)

inductive Outbound where
  | result (id : Json) (result : Result)
  | error (id : Json) (error : ResponseError)
  | diagnostics (uri : Bytes) (diagnostics : List Diagnostic)

def ResponseError.code : ResponseError → Int
  | methodNotFound => -32601
  | invalidParams _ => -32602

def ResponseError.message : ResponseError → Bytes
  | methodNotFound => utf8 "method not found"
  | invalidParams what => utf8 "invalid " ++ utf8 what ++ utf8 " params"

def Place.json (p : Place) : Json :=
  Json.ofMembers [("line", Json.ofNat p.line), ("character", Json.ofNat p.character)]

def Range.json (r : Range) : Json := Json.ofMembers [("start", r.start.json), ("end", r.stop.json)]

def Severity.code : Severity → Nat
  | error => 1
  | warning => 2

def Diagnostic.json (d : Diagnostic) : Json :=
  Json.ofMembers [("range", d.range.json), ("severity", Json.ofNat d.severity.code),
    ("source", Json.ofText (utf8 "logo-lsp")), ("message", Json.ofText d.message)]

def CompletionKind.code : CompletionKind → Nat
  | function => 3
  | keyword => 14

def Completion.json (c : Completion) : Json :=
  Json.ofMembers [("label", Json.ofText c.label), ("kind", Json.ofNat c.kind.code),
    ("detail", Json.ofText c.detail)]

def Hover.json (h : Hover) : Json :=
  Json.ofMembers [
    ("contents", Json.ofMembers
      [("kind", Json.ofText (utf8 "markdown")), ("value", Json.ofText h.text)]),
    ("range", h.range.json)]

mutual

def Symbol.json : Symbol → Json
  | .function name detail range selection children =>
    Json.ofMembers ([("name", Json.ofText name), ("detail", Json.ofText detail),
      ("kind", Json.ofNat 12), ("range", range.json), ("selectionRange", selection.json)] ++
      match children with
      | [] => []
      | _ => [("children", .array (symbolsJson children))])
  | .global name range =>
    Json.ofMembers [("name", Json.ofText name), ("kind", Json.ofNat 13), ("range", range.json),
      ("selectionRange", range.json)]

def symbolsJson : List Symbol → List Json
  | [] => []
  | s :: rest => s.json :: symbolsJson rest

end

def capabilities : Json :=
  Json.ofMembers [
    ("capabilities", Json.ofMembers [
      ("completionProvider", Json.ofMembers [("resolveProvider", .bool false)]),
      ("definitionProvider", .bool true),
      ("documentSymbolProvider", .bool true),
      ("hoverProvider", .bool true),
      ("textDocumentSync", Json.ofNat 1)]),
    ("serverInfo", Json.ofMembers [("name", Json.ofText (utf8 "logo-lsp"))])]

def Result.json? : Result → Option Json
  | capabilities => some Editor.capabilities
  | nothing => none
  | completions items =>
    some (Json.ofMembers
      [("isIncomplete", .bool false), ("items", .array (items.map Completion.json))])
  | hover h => some h.json
  | location uri range => some (Json.ofMembers [("uri", Json.ofText uri), ("range", range.json)])
  | symbols list => some (.array (symbolsJson list))

def Outbound.json (m : Outbound) : Json :=
  Json.ofMembers (("jsonrpc", Json.ofText (utf8 "2.0")) ::
    match m with
    | .result id r => ("id", id) :: (r.json?.elim [] fun j => [("result", j)])
    | .error id e =>
      [("id", id),
       ("error", Json.ofMembers [("code", Json.ofInt e.code), ("message", Json.ofText e.message)])]
    | .diagnostics uri list =>
      [("method", Json.ofText (utf8 "textDocument/publishDiagnostics")),
       ("params", Json.ofMembers
          [("uri", Json.ofText uri), ("diagnostics", .array (list.map Diagnostic.json))])])

end TurtleLogo.Editor
