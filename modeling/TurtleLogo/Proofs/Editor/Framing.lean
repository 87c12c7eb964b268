import TurtleLogo.Editor.Stream
import TurtleLogo.Proofs.Editor.History
import TurtleLogo.Proofs.Text.Bytes

/-!
Conversations in frames. A header announces the bytes of its payload, so the payload is taken off as
it is, whatever it holds, and the next header stands right behind it. A conversation that is cut
short goes as far as its frames do.
-/
namespace TurtleLogo.Editor
open Text

def Frame.error? : Frame → Option StreamError
  | failed e => some e
  | _ => none

namespace Stream

/-! The header of a frame. -/

def lineEnd : Bytes := [carriageReturn, newline]

def lengthLine (n : Nat) : Bytes := utf8 "Content-Length: " ++ decimal n

def lengthHeader (n : Nat) : Bytes := lengthLine n ++ lineEnd ++ lineEnd

def lengthField (n : Nat) : Bytes × Bytes := (utf8 "Content-Length", decimal n)

theorem frame_eq (payload : Bytes) : frame payload = lengthHeader payload.length ++ payload := by
  have ends : utf8 "\r\n\r\n" = lineEnd ++ lineEnd := rfl
  rw [frame, lengthHeader, lengthLine, ends, ← List.append_assoc _ lineEnd lineEnd]

theorem returned_one_line {line : Bytes} (absent : ∀ b ∈ line, b ≠ newline) :
    ∀ b ∈ line ++ [carriageReturn], b ≠ newline := by
  intro b member
  rcases List.mem_append.mp member with inside | last
  · exact absent b inside
  · rw [List.mem_singleton.mp last]
    decide

theorem line_ended {line : Bytes} (absent : ∀ b ∈ line, b ≠ newline) (rest : Bytes) :
    line? (line ++ lineEnd ++ rest) = some (line, rest) := by
  have cut : cutAt? newline (line ++ lineEnd ++ rest) = some (line ++ [carriageReturn], rest) := by
    have whole : line ++ lineEnd ++ rest = line ++ [carriageReturn] ++ newline :: rest := by
      simp [lineEnd]
    rw [whole, cutAt_append (returned_one_line absent)]
  unfold line?
  split
  · rename_i empty
    simp [lineEnd] at empty
  · rw [cut]
    simp

theorem line_unended {text : Bytes} (absent : ∀ b ∈ text, b ≠ newline) (some_text : text ≠ []) :
    line? text = some (text, []) := by
  unfold line?
  split
  · exact absurd rfl some_text
  · rw [cutAt_eq_none absent]

theorem continuations_flush {text : Bytes} (flush : ∀ b ∈ text.head?, isGap b = false) (n : Nat) :
    continuations n text = ([], text) := by
  cases n with
  | zero => rfl
  | succ n =>
    have nothing : text.takeWhile isGap = [] := by
      cases text with
      | nil => rfl
      | cons b rest => exact List.takeWhile_cons_of_neg (by simp [flush b rfl])
    rw [continuations, nothing]
    rfl

theorem headerLines_unended {text : Bytes} (absent : ∀ b ∈ text, b ≠ newline) (n : Nat)
    (fields : List (Bytes × Bytes)) (rest : Bytes) : headerLines n text ≠ .fields fields rest := by
  have ended : ∀ n, headerLines n [] = .ended := by
    intro n
    cases n <;> rfl
  cases n with
  | zero => nofun
  | succ n =>
    by_cases empty : text = []
    · rw [empty, ended]
      nofun
    · obtain ⟨b, more, rfl⟩ := List.exists_cons_of_ne_nil empty
      rw [headerLines, line_unended absent empty]
      dsimp only
      split
      · have flush : ∀ b ∈ ([] : Bytes).head?, isGap b = false := by simp
        rw [continuations_flush flush, ended]
        dsimp only
        split <;> nofun
      · nofun

theorem digit_bytes : ∀ b, isDigit b = true →
    isGap b = false ∧ isValueByte b = true ∧ b ≠ newline ∧ b ≠ byte '-' ∧ b ≠ byte '+' := by
  have table : ∀ n < 256, isDigit n.toUInt8 = true →
      isGap n.toUInt8 = false ∧ isValueByte n.toUInt8 = true ∧ n.toUInt8 ≠ newline ∧
        n.toUInt8 ≠ byte '-' ∧ n.toUInt8 ≠ byte '+' := by
    decide +kernel
  intro b digit
  simpa using table b.toNat b.toNat_lt (by simpa using digit)

theorem decimal_ends (n : Nat) : (∃ b rest, decimal n = b :: rest ∧ isDigit b = true) ∧
    ∃ front b, decimal n = front ++ [b] ∧ isDigit b = true := by
  have digits := decimal_digits n
  have some_digits := decimal_ne_nil n
  constructor
  · obtain ⟨b, rest, split⟩ := List.exists_cons_of_ne_nil some_digits
    exact ⟨b, rest, split, digits b (by simp [split])⟩
  · have split := List.dropLast_append_getLast some_digits
    exact ⟨_, _, split.symm, digits _ (List.getLast_mem some_digits)⟩

theorem lengthLine_one_line (n : Nat) : ∀ b ∈ lengthLine n, b ≠ newline := by
  intro b member
  rcases List.mem_append.mp member with name | digit
  · have spelled : (utf8 "Content-Length: ").all (· != newline) = true := by decide
    simpa using List.all_eq_true.mp spelled b name
  · exact (digit_bytes b (decimal_digits n b digit)).2.2.1

theorem trimGaps_lengthLine (n : Nat) : trimGaps (lengthLine n) = lengthLine n := by
  obtain ⟨front, b, digits, last⟩ := (decimal_ends n).2
  have first : (lengthLine n).dropWhile isGap = lengthLine n := rfl
  have line : lengthLine n = (utf8 "Content-Length: " ++ front) ++ [b] := by
    rw [lengthLine, digits, List.append_assoc]
  rw [trimGaps, first, line, dropEndWhile, List.reverse_append, List.reverse_singleton,
    List.singleton_append, List.dropWhile_cons_of_neg (by simp [(digit_bytes b last).1]),
    List.reverse_cons, List.reverse_reverse]

theorem field_lengthLine (n : Nat) : field? (lengthLine n) = some (lengthField n) := by
  obtain ⟨⟨b, rest, digits, first⟩, -⟩ := decimal_ends n
  have cut : cutAt? (byte ':') (lengthLine n) =
      some (utf8 "Content-Length", space :: decimal n) := by
    have written : utf8 "Content-Length: " = utf8 "Content-Length" ++ [byte ':', space] := by
      decide +kernel
    have line : lengthLine n = utf8 "Content-Length" ++ byte ':' :: space :: decimal n := by
      rw [lengthLine, written, List.append_assoc]
      rfl
    have spelled : (utf8 "Content-Length").all (· != byte ':') = true := by decide
    rw [line, cutAt_append]
    intro b name
    simpa using List.all_eq_true.mp spelled b name
  have values : (space :: decimal n).all isValueByte = true := by
    rw [List.all_cons, List.all_eq_true.mpr]
    · rfl
    · intro d digit
      exact (digit_bytes d (decimal_digits n d digit)).2.1
  have value : (space :: decimal n).dropWhile isGap = decimal n := by
    rw [List.dropWhile_cons_of_pos (by rfl), digits,
      List.dropWhile_cons_of_neg (by simp [(digit_bytes b first).1])]
  have name : (!(utf8 "Content-Length").isEmpty &&
      (utf8 "Content-Length").all (fun b => isNameByte b || b == space)) = true := by decide
  rw [field?, cut]
  dsimp only
  rw [name, values, value]
  rfl

theorem headerLines_lengthLine (n k : Nat) {rest : Bytes}
    (flush : ∀ b ∈ rest.head?, isGap b = false) :
    headerLines (k + 1) (lengthLine n ++ lineEnd ++ rest) =
      (headerLines k rest).cons (lengthField n) := by
  have line := line_ended (lengthLine_one_line n) rest
  have colon : (lengthLine n).contains (byte ':') = true := rfl
  rw [headerLines, line]
  split
  · rename_i absent
    cases absent
  · rename_i empty
    cases empty
  · rename_i same
    obtain ⟨rfl, rfl⟩ := Prod.mk.inj (Option.some.inj same)
    rw [if_pos colon, continuations_flush flush]
    simp only [trimGaps_lengthLine, List.append_nil, field_lengthLine]

theorem size_decimal {n : Nat} (fits : n < Number.twoTo 63) : size? (decimal n) = some n := by
  obtain ⟨⟨b, rest, digits, first⟩, -⟩ := decimal_ends n
  have all : (decimal n).all isDigit = true := List.all_eq_true.mpr (decimal_digits n)
  have value := natOfDigits_decimal n
  obtain ⟨-, -, -, minus, plus⟩ := digit_bytes b first
  rw [digits] at all value ⊢
  simp only [size?, minus, plus, beq_iff_eq, if_false, value, all]
  simp [Nat.not_le.mpr fits]

theorem contentLength_lengthField (n : Nat) : contentLength [lengthField n] = decimal n := by
  have named : (utf8 "Content-Length").map lowered = utf8 "content-length" := by decide
  simp [contentLength, lengthField, named]

theorem header_of_flush {text : Bytes} (begins : ∃ rest, text = byte 'C' :: rest) :
    header text = headerLines (text.length + 1) text := by
  obtain ⟨rest, rfl⟩ := begins
  rfl

theorem header_lengthHeader (n : Nat) (rest : Bytes) :
    header (lengthHeader n ++ rest) = .fields [lengthField n] rest := by
  have whole : lengthHeader n ++ rest = lengthLine n ++ lineEnd ++ (lineEnd ++ rest) := by
    rw [lengthHeader, List.append_assoc _ lineEnd rest]
  have flush : ∀ b ∈ (lineEnd ++ rest).head?, isGap b = false := by
    intro b ahead
    cases ahead
    rfl
  have empty : line? (lineEnd ++ rest) = some ([], rest) := @line_ended [] nofun rest
  have starts : lengthHeader n ++ rest =
      byte 'C' :: (utf8 "ontent-Length: " ++ decimal n ++ lineEnd ++ lineEnd ++ rest) := rfl
  have room : (lengthHeader n ++ rest).length =
      (utf8 "ontent-Length: " ++ decimal n ++ lineEnd ++ lineEnd ++ rest).length + 1 := by
    rw [starts, List.length_cons]
  rw [header_of_flush ⟨_, starts⟩, room, whole, headerLines_lengthLine n _ flush, headerLines,
    empty]
  rfl

theorem next_frame {payload : Bytes} (fits : payload.length < Number.twoTo 63) (rest : Bytes) :
    next (frame payload ++ rest) = .payload payload rest := by
  have some_digits : (decimal payload.length).isEmpty = false := by
    simpa using decimal_ne_nil payload.length
  rw [frame_eq, List.append_assoc, next, header_lengthHeader]
  simp only [contentLength_lengthField, some_digits, size_decimal fits]
  simp

/-! Frames that are cut short. -/

theorem next_unheaded {text : Bytes} (headless : ∀ fields rest, header text ≠ .fields fields rest)
    (payload rest : Bytes) : next text ≠ .payload payload rest := by
  rw [next]
  split
  · nofun
  · nofun
  · rename_i fields after found
    exact absurd found (headless fields after)

theorem cons_headless {h : Header} (headless : ∀ fields rest, h ≠ .fields fields rest)
    (f : Bytes × Bytes) (fields : List (Bytes × Bytes)) (rest : Bytes) :
    h.cons f ≠ .fields fields rest := by
  cases h with
  | fields others after => exact absurd rfl (headless others after)
  | ended => nofun
  | failed e => nofun

theorem headerLines_cut_end {part missing : Bytes} (cut : part ++ missing = lineEnd)
    (lacks : missing ≠ []) (n k : Nat) (fields : List (Bytes × Bytes)) (rest : Bytes) :
    headerLines (k + 1) (lengthLine n ++ lineEnd ++ part) ≠ .fields fields rest := by
  have short : part = [] ∨ part = [carriageReturn] := by
    rcases part with _ | ⟨b, _ | ⟨c, part⟩⟩
    · exact .inl rfl
    · rw [(List.cons.inj cut).1]
      exact .inr rfl
    · have behind := (List.cons.inj (List.cons.inj cut).2).2
      exact absurd (List.append_eq_nil_iff.mp behind).2 lacks
  have flush : ∀ b ∈ part.head?, isGap b = false := by
    rcases short with rfl | rfl <;> simp [isGap, carriageReturn]
  have unended : ∀ b ∈ part, b ≠ newline := by
    rcases short with rfl | rfl <;> simp [carriageReturn, newline]
  rw [headerLines_lengthLine n k flush]
  exact cons_headless (headerLines_unended unended k) _ fields rest

theorem header_cut {n : Nat} {part missing : Bytes} (cut : part ++ missing = lengthHeader n)
    (lacks : missing ≠ []) (fields : List (Bytes × Bytes)) (rest : Bytes) :
    header part ≠ .fields fields rest := by
  cases part with
  | nil => nofun
  | cons b more =>
    have first : b = byte 'C' := (List.cons.inj cut).1
    rw [header_of_flush ⟨more, by rw [first]⟩]
    have one_line := returned_one_line (lengthLine_one_line n)
    have whole : b :: more ++ missing =
        (lengthLine n ++ [carriageReturn]) ++ newline :: lineEnd := by
      rw [cut, lengthHeader, lineEnd]
      simp
    rcases List.append_eq_append_iff.mp whole with ⟨middle, line, -⟩ | ⟨middle, part, behind⟩
    · -- cut in the line
      apply headerLines_unended
      intro c member
      exact one_line c (by rw [line]; exact List.mem_append_left _ member)
    · cases middle with
      | nil =>
        apply headerLines_unended
        rw [part, List.append_nil]
        exact one_line
      | cons c tail =>
        -- cut behind the line, in the empty one
        obtain ⟨rfl, ends⟩ := List.cons.inj behind
        have line : b :: more = lengthLine n ++ lineEnd ++ tail := by
          rw [part, lineEnd]
          simp
        rw [line]
        exact headerLines_cut_end ends.symm lacks n _ fields rest

/-- Where a payload lacks its end, the conversation breaks off; where it lacks all of it, the
    conversation is over. -/
theorem next_cut_payload {payload part missing : Bytes} (fits : payload.length < Number.twoTo 63)
    (cut : part ++ missing = payload) (lacks : missing ≠ []) :
    next (lengthHeader payload.length ++ part) =
      if part.isEmpty then .ended else .failed .cutPayload := by
  have some_digits : (decimal payload.length).isEmpty = false := by
    simpa using decimal_ne_nil payload.length
  have short : ¬payload.length ≤ part.length := by
    rw [← cut, List.length_append]
    have := List.length_pos_of_ne_nil lacks
    omega
  rw [next, header_lengthHeader]
  simp only [contentLength_lengthField, some_digits, size_decimal fits]
  rw [if_neg short]
  rfl

/-- What begins a frame and is not the whole of it is taken for none. -/
theorem next_cut_frame {payload part missing : Bytes} (fits : payload.length < Number.twoTo 63)
    (cut : part ++ missing = frame payload) (lacks : missing ≠ []) (bytes rest : Bytes) :
    next part ≠ .payload bytes rest := by
  rw [frame_eq] at cut
  rcases List.append_eq_append_iff.mp cut with ⟨middle, head, behind⟩ | ⟨inside, whole, tail⟩
  · by_cases ended : middle = []
    · rw [ended, List.append_nil] at head
      rw [ended, List.nil_append] at behind
      have ahead := next_cut_payload fits (List.nil_append payload) (behind ▸ lacks)
      rw [List.append_nil, head] at ahead
      rw [ahead]
      nofun
    · exact next_unheaded (header_cut head.symm ended) bytes rest
  · rw [whole, next_cut_payload fits tail.symm lacks]
    split <;> nofun

/-! Conversations. -/

def decoded (payloads : List Bytes) : List Inbound := payloads.filterMap Inbound.ofBytes?

def exits (messages : List Inbound) : Bool := messages.any fun m => m.method == utf8 "exit"

theorem exits_cons (m : Inbound) (rest : List Inbound) :
    exits (m :: rest) = (m.method == utf8 "exit" || exits rest) :=
  List.any_cons

def upToExit : List Inbound → List Inbound
  | [] => []
  | m :: rest => if m.method == utf8 "exit" then [m] else m :: upToExit rest

def encoded (sent : List Outbound) : Bytes := (sent.map fun out => out.json.render).flatMap frame

theorem encoded_append (sent more : List Outbound) :
    encoded (sent ++ more) = encoded sent ++ encoded more := by
  simp [encoded]

theorem upToExit_prefix (messages later : List Inbound) :
    upToExit messages <+: upToExit (messages ++ later) := by
  induction messages with
  | nil => exact List.nil_prefix
  | cons m rest ih =>
    rw [List.cons_append, upToExit, upToExit]
    split
    · exact List.prefix_rfl
    · exact (List.prefix_cons_inj m).mpr ih

section
variable {payload : Bytes} (fits : payload.length < Number.twoTo 63) (n : Nat) (s : Server)
  (rest : Bytes)
include fits

theorem serveFrom_undecodable (read : Inbound.ofBytes? payload = none) :
    serveFrom (n + 1) s (frame payload ++ rest) = serveFrom n s rest := by
  have replied : reply s payload = (s, [], false) := by rw [reply, read]
  rw [serveFrom, next_frame fits]
  simp only [replied, Bool.false_eq_true, if_false, List.nil_append]

theorem serveFrom_decodable {m : Inbound} (read : Inbound.ofBytes? payload = some m) :
    serveFrom (n + 1) s (frame payload ++ rest) =
      if m.method == utf8 "exit" then (encoded (s.handle m).2, none)
      else (encoded (s.handle m).2 ++ (serveFrom n (s.handle m).1 rest).1,
        (serveFrom n (s.handle m).1 rest).2) := by
  have replied : reply s payload =
      ((s.handle m).1, encoded (s.handle m).2, m.method == utf8 "exit") := by
    rw [reply, read, encoded, List.flatMap_map]
  rw [serveFrom, next_frame fits]
  simp only [replied]

end

theorem serveFrom_frames {payloads : List Bytes}
    (fits : ∀ payload ∈ payloads, payload.length < Number.twoTo 63) (n : Nat) (s : Server)
    (tail : Bytes) : serveFrom (payloads.length + n) s (payloads.flatMap frame ++ tail) =
      let ran := s.run (upToExit (decoded payloads))
      if exits (decoded payloads) then (encoded ran.2, none)
      else (encoded ran.2 ++ (serveFrom n ran.1 tail).1, (serveFrom n ran.1 tail).2) := by
  induction payloads generalizing s with
  | nil => simp [decoded, exits, upToExit, Server.run, encoded]
  | cons payload payloads ih =>
    have behind := ih fun later member => fits later (List.mem_cons_of_mem payload member)
    have first := fits payload List.mem_cons_self
    rw [List.flatMap_cons, List.append_assoc, List.length_cons, Nat.add_right_comm]
    cases read : Inbound.ofBytes? payload with
    | none =>
      have skipped : decoded (payload :: payloads) = decoded payloads :=
        List.filterMap_cons_none read
      rw [serveFrom_undecodable first _ _ _ read, behind, skipped]
    | some m =>
      have taken : decoded (payload :: payloads) = m :: decoded payloads :=
        List.filterMap_cons_some read
      rw [serveFrom_decodable first _ _ _ read, behind, taken, exits_cons, upToExit]
      cases last : m.method == utf8 "exit" with
      | true => simp only [Bool.true_or, if_true, Server.run, List.append_nil]
      | false =>
        simp only [Bool.false_or, Bool.false_eq_true, if_false, Server.run, encoded_append]
        split
        · rfl
        · rw [List.append_assoc]

theorem flatMap_frame_length (payloads : List Bytes) :
    payloads.length ≤ (payloads.flatMap frame).length := by
  induction payloads with
  | nil => exact Nat.le_refl 0
  | cons payload payloads ih =>
    have header : 0 < (frame payload).length := Nat.succ_pos _
    rw [List.flatMap_cons, List.length_append, List.length_cons]
    omega

theorem serveFrom_ended {tail : Bytes} (last : ∀ bytes rest, next tail ≠ .payload bytes rest)
    (n : Nat) (s : Server) : serveFrom (n + 1) s tail = ([], (next tail).error?) := by
  rw [serveFrom]
  cases ahead : next tail with
  | payload bytes rest => exact absurd ahead (last bytes rest)
  | ended => rfl
  | failed e => rfl

theorem serve_frames {payloads : List Bytes}
    (fits : ∀ payload ∈ payloads, payload.length < Number.twoTo 63) {tail : Bytes}
    (last : ∀ bytes rest, next tail ≠ .payload bytes rest) :
    serve (payloads.flatMap frame ++ tail) =
      (encoded (Server.initial.run (upToExit (decoded payloads))).2,
        if exits (decoded payloads) then none else (next tail).error?) := by
  obtain ⟨k, fuel⟩ : ∃ k, (payloads.flatMap frame ++ tail).length + 1 =
      payloads.length + (k + 1) := by
    have bound := flatMap_frame_length payloads
    refine ⟨(payloads.flatMap frame ++ tail).length - payloads.length, ?_⟩
    rw [List.length_append]
    omega
  rw [serve, fuel, serveFrom_frames fits]
  dsimp only
  rw [serveFrom_ended last, List.append_nil]
  split <;> rfl

theorem serve_whole_frames {payloads : List Bytes}
    (fits : ∀ payload ∈ payloads, payload.length < Number.twoTo 63) :
    serve (payloads.flatMap frame) =
      (encoded (Server.initial.run (upToExit (decoded payloads))).2, none) := by
  have served := @serve_frames payloads fits [] nofun
  rw [List.append_nil] at served
  rw [served]
  split <;> rfl

/-- Where a conversation in frames is cut, whole frames are left and a part of one behind them. -/
theorem cut_frames {payloads : List Bytes} {cut missing : Bytes}
    (fits : ∀ payload ∈ payloads, payload.length < Number.twoTo 63)
    (split : cut ++ missing = payloads.flatMap frame) :
    ∃ front back part, payloads = front ++ back ∧ cut = front.flatMap frame ++ part ∧
      ∀ bytes rest, next part ≠ .payload bytes rest := by
  induction payloads generalizing cut with
  | nil =>
    obtain ⟨rfl, -⟩ := List.append_eq_nil_iff.mp split
    exact ⟨[], [], [], rfl, rfl, nofun⟩
  | cons payload payloads ih =>
    rw [List.flatMap_cons] at split
    rcases List.append_eq_append_iff.mp split with ⟨middle, whole, -⟩ | ⟨middle, rfl, behind⟩
    · by_cases lacks : middle = []
      · refine ⟨[payload], payloads, [], rfl, ?_, nofun⟩
        rw [lacks, List.append_nil] at whole
        simp [whole]
      · exact ⟨[], payload :: payloads, cut, rfl, rfl,
          next_cut_frame (fits payload List.mem_cons_self) whole.symm lacks⟩
    · obtain ⟨front, back, part, rfl, rfl, last⟩ :=
        ih (fun later member => fits later (List.mem_cons_of_mem payload member)) behind.symm
      refine ⟨payload :: front, back, part, rfl, ?_, last⟩
      rw [List.flatMap_cons, List.append_assoc]

inductive Splits : Bytes → List Bytes → Prop where
  | ended {text : Bytes} (done : next text = .ended) : Splits text []
  | payload {text bytes rest : Bytes} {more : List Bytes} (first : next text = .payload bytes rest)
      (behind : Splits rest more) : Splits text (bytes :: more)

theorem splits_frames {payloads : List Bytes}
    (fits : ∀ payload ∈ payloads, payload.length < Number.twoTo 63) :
    Splits (payloads.flatMap frame) payloads := by
  induction payloads with
  | nil => exact .ended rfl
  | cons payload payloads ih =>
    rw [List.flatMap_cons]
    apply Splits.payload (next_frame (fits payload List.mem_cons_self) _)
    exact ih fun later member => fits later (List.mem_cons_of_mem payload member)

theorem Splits.unique {text : Bytes} {parts others : List Bytes} (first : Splits text parts)
    (second : Splits text others) : parts = others := by
  induction first generalizing others with
  | ended done =>
    cases second with
    | ended _ => rfl
    | payload ahead _ =>
      rw [done] at ahead
      cases ahead
  | payload ahead _ ih =>
    cases second with
    | ended done =>
      rw [done] at ahead
      cases ahead
    | payload again behind =>
      rw [ahead] at again
      cases again
      rw [ih behind]

/-- A conversation in frames is carried on frame by frame, up to the message that ends it. What does
    not decode is passed over as one frame, and what is sent comes in frames, too. Cut short, the
    conversation is carried on as far as it goes, and breaks off only within a payload. The sizes of
    payloads are integers of the machine. -/
theorem framed_conversations {payloads : List Bytes}
    (fits : ∀ payload ∈ payloads, payload.length < Number.twoTo 63) :
    let input := payloads.flatMap frame
    let sent := (Server.initial.run (upToExit (decoded payloads))).2
    serve input = (encoded sent, none) ∧
      ((∀ out ∈ sent, out.json.render.length < Number.twoTo 63) →
        ∀ parts, Splits (encoded sent) parts ↔ parts = sent.map fun out => out.json.render) ∧
      (∀ cut, cut <+: input → (serve cut).1 <+: (serve input).1) ∧
      (∀ front back, payloads = front ++ back → (serve (front.flatMap frame)).2 = none) ∧
      ∀ front payload back part missing, payloads = front ++ payload :: back →
        payload = part ++ missing → missing ≠ [] →
          (serve (front.flatMap frame ++ (lengthHeader payload.length ++ part))).2.map
              StreamError.message =
            if exits (decoded front) || part.isEmpty then none
            else some (utf8 "unexpected EOF") := by
  refine ⟨serve_whole_frames fits, ?_, ?_, ?_, ?_⟩
  · intro short parts
    have apart : Splits (encoded _) _ := splits_frames fun part member => by
      obtain ⟨out, listed, rfl⟩ := List.mem_map.mp member
      exact short out listed
    constructor
    · intro others
      exact others.unique apart
    · rintro rfl
      exact apart
  · rintro cut ⟨missing, split⟩
    obtain ⟨front, back, part, rfl, rfl, last⟩ := cut_frames fits split
    have earlier :=
      serve_frames (fun payload member => fits payload (List.mem_append_left _ member)) last
    rw [serve_whole_frames fits, earlier]
    obtain ⟨later, messages⟩ := upToExit_prefix (decoded front) (decoded back)
    have all : decoded (front ++ back) = decoded front ++ decoded back := List.filterMap_append
    rw [all, ← messages, Server.run_append, encoded_append]
    exact List.prefix_append _ _
  · rintro front back rfl
    rw [serve_whole_frames fun payload member => fits payload (List.mem_append_left _ member)]
  · rintro front payload back part missing rfl pieces lacks
    have ahead := next_cut_payload (fits payload (by simp)) pieces.symm lacks
    have last : ∀ bytes rest,
        next (lengthHeader payload.length ++ part) ≠ .payload bytes rest := by
      intro bytes rest
      rw [ahead]
      split <;> nofun
    rw [serve_frames (fun payload member => fits payload (List.mem_append_left _ member)) last,
      ahead]
    cases exits (decoded front) <;> cases part.isEmpty <;> rfl

def garbledPayload : Bytes := utf8 "\x7b\r\n\r\n"

def shutdownPayload : Bytes := utf8 "\x7b\"id\":1,\"method\":\"shutdown\"\x7d"

def farewell : List Bytes :=
  [garbledPayload, shutdownPayload, utf8 "\x7b\"method\":\"exit\"\x7d", []]

theorem farewell_answer : encoded (Server.initial.run (upToExit (decoded farewell))).2 =
    frame (utf8 "\x7b\"jsonrpc\":\"2.0\",\"id\":1\x7d") := by
  decide +kernel

/-- The request is answered, unless the conversation breaks off within it. -/
theorem framed_conversations_of_farewell :
    (∀ payload ∈ farewell, payload.length < Number.twoTo 63) ∧
      serve (farewell.flatMap frame) =
        (frame (utf8 "\x7b\"jsonrpc\":\"2.0\",\"id\":1\x7d"), none) ∧
      (serve (frame garbledPayload ++ (lengthHeader shutdownPayload.length ++ utf8 "\x7b"))).2.map
        StreamError.message = some (utf8 "unexpected EOF") := by
  have fits : ∀ payload ∈ farewell, payload.length < Number.twoTo 63 := by
    have sizes : (farewell.all fun payload => payload.length < Number.twoTo 63) = true := by decide
    simpa using List.all_eq_true.mp sizes
  obtain ⟨served, -, -, -, broken⟩ := framed_conversations fits
  refine ⟨fits, by rw [served, farewell_answer], ?_⟩
  have undecodable : decoded [garbledPayload] = [] := by
    have nothing : (decoded [garbledPayload]).isEmpty = true := by decide +kernel
    exact List.isEmpty_iff.mp nothing
  have broken_off := broken [garbledPayload] shutdownPayload _ (utf8 "\x7b")
    (shutdownPayload.drop 1) rfl rfl (by decide)
  rw [undecodable] at broken_off
  exact broken_off

end Stream
end TurtleLogo.Editor
