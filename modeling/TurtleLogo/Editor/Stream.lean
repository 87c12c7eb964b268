import TurtleLogo.Editor.Server
import TurtleLogo.Text.Quoted

/-!
The byte stream between an editor and the server. Every payload is preceded by header
lines, of which Content-Length gives its size in bytes, and an empty line. Payloads that
do not decode are passed over; the message named exit ends the conversation.
-/
namespace TurtleLogo.Editor
open Text

inductive StreamError where
  | initialLine (line : Bytes)
  | lineTooLong
  | missingColon (line : Bytes)
  | malformedLine (line : Bytes)
  | missingLength
  | invalidLength (value : Bytes)
  | cutPayload
  deriving DecidableEq, Repr

def StreamError.message : StreamError → Bytes
  | initialLine line => utf8 "malformed MIME header initial line: " ++ quoted line
  | lineTooLong => utf8 "message too large"
  | missingColon line => utf8 "malformed MIME header: missing colon: " ++ quoted line
  | malformedLine line => utf8 "malformed MIME header line: " ++ quoted line
  | missingLength => utf8 "missing Content-Length header"
  | invalidLength value => utf8 "invalid Content-Length " ++ quoted value
  | cutPayload => utf8 "unexpected EOF"

inductive Frame where
  | payload (bytes rest : Bytes)
  | ended
  | failed (error : StreamError)
  deriving DecidableEq, Repr

namespace Stream

def isGap (b : UInt8) : Bool := b == 9 || b == 32

def trimGaps (line : Bytes) : Bytes := dropEndWhile isGap (line.dropWhile isGap)

def line? (text : Bytes) : Option (Bytes × Bytes) :=
  match text with
  | [] => none
  | _ =>
    match cutAt? newline text with
    | none => some (text, [])
    | some (line, rest) =>
      some (if line.getLast? == some carriageReturn then line.dropLast else line, rest)

/-- Lines that begin with a gap continue the line before them, with one space between. -/
def continuations : Nat → Bytes → Bytes × Bytes
  | 0, text => ([], text)
  | n + 1, text =>
    if (text.takeWhile isGap).isEmpty then ([], text)
    else
      match line? (text.dropWhile isGap) with
      | none => ([space], [])
      | some (line, rest) =>
        let (more, rest) := continuations n rest
        (space :: trimGaps line ++ more, rest)

def isNameByte (b : UInt8) : Bool :=
  isLetter b || isDigit b || (utf8 "!#$%&'*+-.^_`|~").contains b

def isValueByte (b : UInt8) : Bool := b == 9 || (32 ≤ b && b != 127)

def field? (line : Bytes) : Option (Bytes × Bytes) :=
  match cutAt? (byte ':') line with
  | none => none
  | some (name, value) =>
    if !name.isEmpty && name.all (fun b => isNameByte b || b == space) && value.all isValueByte then
      some (name, value.dropWhile isGap)
    else none

inductive Header where
  | fields (fields : List (Bytes × Bytes)) (rest : Bytes)
  | ended
  | failed (error : StreamError)

def Header.cons (f : Bytes × Bytes) : Header → Header
  | fields list rest => fields (f :: list) rest
  | ended => ended
  | failed error => failed error

def headerLines : Nat → Bytes → Header
  | 0, _ => .ended
  | n + 1, text =>
    match line? text with
    | none => .ended
    | some ([], rest) => .fields [] rest
    | some (line, rest) =>
      if line.contains (byte ':') then
        let (more, rest) := continuations rest.length rest
        let whole := trimGaps line ++ more
        match field? whole with
        | none => .failed (.malformedLine whole)
        | some f => (headerLines n rest).cons f
      else .failed (.missingColon line)

/-- The first line may not begin with a gap. -/
def header (text : Bytes) : Header :=
  match text with
  | [] => .ended
  | b :: _ =>
    if isGap b then
      let line := ((line? text).map Prod.fst).getD []
      if 80 < line.length then .failed .lineTooLong else .failed (.initialLine line)
    else headerLines (text.length + 1) text

/-- The first field of a name counts; upper and lower case are the same. -/
def contentLength (fields : List (Bytes × Bytes)) : Bytes :=
  ((fields.find? fun f => f.1.map lowered == utf8 "content-length").map Prod.snd).getD []

/-- A decimal integer with an optional sign that fits 64 bits and is not negative. -/
def size? (text : Bytes) : Option Nat :=
  let (negative, digits) := match text with
    | [] => (false, [])
    | b :: rest =>
      if b == byte '-' then (true, rest) else if b == byte '+' then (false, rest) else (false, text)
  let n := natOfDigits digits
  if digits.isEmpty || !digits.all isDigit || Number.twoTo 63 ≤ n || (negative && n != 0) then none
  else some n

def next (text : Bytes) : Frame :=
  match header text with
  | .ended => .ended
  | .failed e => .failed e
  | .fields fields rest =>
    let value := contentLength fields
    if value.isEmpty then .failed .missingLength
    else
      match size? value with
      | none => .failed (.invalidLength value)
      | some n =>
        if n ≤ rest.length then .payload (rest.take n) (rest.drop n)
        else if rest.isEmpty then .ended
        else .failed .cutPayload

def announced (text : Bytes) : Nat :=
  match header text with
  | .fields fields _ => (size? (contentLength fields)).getD 0
  | _ => 0

def frame (payload : Bytes) : Bytes :=
  utf8 "Content-Length: " ++ decimal payload.length ++ utf8 "\r\n\r\n" ++ payload

/-- What the server makes of a payload: its new state, the bytes it sends, and whether the
    conversation is over. -/
def reply (s : Server) (payload : Bytes) : Server × Bytes × Bool :=
  match Inbound.ofBytes? payload with
  | none => (s, [], false)
  | some m =>
    let (s, messages) := s.handle m
    (s, messages.flatMap fun out => frame out.json.render, m.method == utf8 "exit")

def serveFrom : Nat → Server → Bytes → Bytes × Option StreamError
  | 0, _, _ => ([], none)
  | n + 1, s, text =>
    match next text with
    | .ended => ([], none)
    | .failed e => ([], some e)
    | .payload bytes rest =>
      let (s, sent, ended) := reply s bytes
      if ended then (sent, none)
      else
        let (more, error) := serveFrom n s rest
        (sent ++ more, error)

end Stream

def serve (input : Bytes) : Bytes × Option StreamError :=
  Stream.serveFrom (input.length + 1) Server.initial input

end TurtleLogo.Editor
