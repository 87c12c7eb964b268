import TurtleLogo.Editor.Message

/-!
The language server as a state machine: it holds the latest text of every open document,
publishes diagnostics whenever one changes, and answers requests about them. A request
without an id gets no answer, and a notification is never answered.
-/
namespace TurtleLogo.Editor
open Text

/-- The open documents; every address occurs at most once. -/
structure Server where
  documents : List (Bytes × Document)

namespace Server

def initial : Server := ⟨[]⟩

def document (s : Server) (uri : Bytes) : Document :=
  (s.documents.lookup uri).getD (Document.ofText [])

def without (s : Server) (uri : Bytes) : Server := ⟨s.documents.filter fun entry => entry.1 != uri⟩

def store (s : Server) (uri text : Bytes) : Server × List Outbound :=
  let d := Document.ofText text
  (⟨(uri, d) :: (s.without uri).documents⟩, [.diagnostics uri d.diagnostics])

def close (s : Server) (uri : Bytes) : Server × List Outbound :=
  (s.without uri, [.diagnostics uri []])

inductive Notification where
  | ignored | didOpen | didChange | didClose
  deriving DecidableEq, Repr

def notification? (method : Bytes) : Option Notification :=
  if method == utf8 "initialized" || method == utf8 "exit" then some .ignored
  else if method == utf8 "textDocument/didOpen" then some .didOpen
  else if method == utf8 "textDocument/didChange" then some .didChange
  else if method == utf8 "textDocument/didClose" then some .didClose
  else none

/-- A notification whose parameters do not decode, or which changes nothing, is ignored. Of several
    changes the last holds the whole text. -/
def notify (s : Server) (n : Notification) (params : Option Json) : Server × List Outbound :=
  match n with
  | .ignored => (s, [])
  | .didOpen =>
    match Params.decode? [Params.openedField] params with
    | some p => s.store p.uri p.text
    | none => (s, [])
  | .didChange =>
    match Params.decode? [Params.documentField, Params.changesField] params with
    | some p =>
      match p.changes.items.getLast? with
      | some latest => s.store p.uri latest
      | none => (s, [])
    | none => (s, [])
  | .didClose =>
    match Params.decode? [Params.documentField] params with
    | some p => s.close p.uri
    | none => (s, [])

/-- The answer to a request. Completion makes do with whatever its parameters say. -/
def respond (s : Server) (method : Bytes) (params : Option Json) : Except ResponseError Result :=
  if method == utf8 "initialize" then .ok .capabilities
  else if method == utf8 "shutdown" then .ok .nothing
  else if method == utf8 "textDocument/completion" then
    let uri := (Params.fill [Params.documentField] params).value.uri
    .ok (.completions (s.document uri).completions)
  else if method == utf8 "textDocument/hover" then
    match Params.decode? [Params.documentField, Params.positionField] params with
    | none => .error (.invalidParams "hover")
    | some p => .ok (((s.document p.uri).hover? p.line p.character).elim .nothing .hover)
  else if method == utf8 "textDocument/definition" then
    match Params.decode? [Params.documentField, Params.positionField] params with
    | none => .error (.invalidParams "definition")
    | some p =>
      .ok (((s.document p.uri).definitionAt? p.line p.character).elim .nothing (.location p.uri))
  else if method == utf8 "textDocument/documentSymbol" then
    match Params.decode? [Params.documentField] params with
    | none => .error (.invalidParams "documentSymbol")
    | some p => .ok (.symbols (s.document p.uri).symbols)
  else .error .methodNotFound

def handle (s : Server) (m : Inbound) : Server × List Outbound :=
  match notification? m.method with
  | some n => s.notify n m.params
  | none =>
    match m.id with
    | none => (s, [])
    | some id =>
      match s.respond m.method m.params with
      | .ok result => (s, [.result id result])
      | .error e => (s, [.error id e])

end Server
end TurtleLogo.Editor
