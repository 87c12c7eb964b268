import Mathlib.Data.List.Induction
import TurtleLogo.Editor.Server
import TurtleLogo.Proofs.Text.Bytes

/-!
The documents of an editor over whole histories. A message writes a text to an address, closes an
address, or leaves all documents alone. What the server holds of an address, what it has published
there last and what it answers depend on the last text written to it and not closed since, and on
nothing else that went before.
-/
namespace TurtleLogo.Editor
open Text

/-- What becomes of a document. -/
inductive Effect where
  | writes (uri text : Bytes)
  | closes (uri : Bytes)
  deriving DecidableEq, Repr

def Effect.uri : Effect → Bytes
  | writes uri _ | closes uri => uri

def Effect.left? : Effect → Option Document
  | writes _ text => some (Document.ofText text)
  | closes _ => none

namespace Inbound

def effect? (m : Inbound) : Option Effect :=
  if m.method == utf8 "textDocument/didOpen" then
    (Params.decode? [Params.openedField] m.params).map fun p => .writes p.uri p.text
  else if m.method == utf8 "textDocument/didChange" then
    (Params.decode? [Params.documentField, Params.changesField] m.params).bind fun p =>
      p.changes.items.getLast?.map (.writes p.uri)
  else if m.method == utf8 "textDocument/didClose" then
    (Params.decode? [Params.documentField] m.params).map fun p => .closes p.uri
  else none

def Touches (m : Inbound) (uri : Bytes) : Prop := ∃ e, m.effect? = some e ∧ e.uri = uri

theorem not_touches {m : Inbound} {e : Effect} {uri : Bytes} (effect : m.effect? = some e)
    (other : uri ≠ e.uri) : ¬m.Touches uri := by
  rintro ⟨e', effect', rfl⟩
  rw [effect] at effect'
  exact other (congrArg Effect.uri (Option.some.inj effect')).symm

theorem not_touches_idle {m : Inbound} {uri : Bytes} (idle : m.effect? = none) :
    ¬m.Touches uri := by
  rintro ⟨e, effect, -⟩
  rw [idle] at effect
  cases effect

theorem fields_keep_id {f : Json.Field Inbound} (listed : f ∈ fields) {m : Inbound}
    (given : m.id ≠ some .null) (j : Json) : (f.fill m j).value.id ≠ some .null := by
  simp only [fields, List.mem_cons, List.not_mem_nil, or_false] at listed
  rcases listed with rfl | rfl | rfl | rfl
  · exact given
  · cases j <;> simp [setId]
  · exact given
  · exact given

theorem id_ne_null {payload : Bytes} {m : Inbound} (decoded : ofBytes? payload = some m) :
    m.id ≠ some .null := by
  obtain ⟨j, -, made⟩ := Option.bind_eq_some_iff.mp decoded
  rw [ofJson?] at made
  split at made
  · obtain rfl := Option.some.inj made
    have filled : ∀ (members : List (Bytes × Json)) (acc : Json.Filled Inbound),
        acc.value.id ≠ some .null →
        (members.foldl (Json.fillMember fields) acc).value.id ≠ some .null := by
      intro members
      induction members with
      | nil => exact fun acc given => given
      | cons member members ih =>
        intro acc given
        apply ih
        rw [Json.fillMember]
        split
        · exact given
        · rename_i f found
          rcases Option.or_eq_some_iff.mp found with spelled | ⟨-, folded⟩
          · exact fields_keep_id (List.mem_of_find?_eq_some spelled) given _
          · exact fields_keep_id (List.mem_of_find?_eq_some folded) given _
    cases j with
    | object members => exact filled members _ nofun
    | _ => nofun
  · cases made

end Inbound

/-- The text that was written to an address last, and neither replaced nor closed since. -/
def Standing (history : List Inbound) (uri text : Bytes) : Prop :=
  ∃ before m after, history = before ++ m :: after ∧ m.effect? = some (.writes uri text) ∧
    ∀ later ∈ after, ¬later.Touches uri

section
variable {history : List Inbound} {m : Inbound} {uri text : Bytes}

theorem Standing.touched (stands : Standing history uri text) : ∃ m ∈ history, m.Touches uri := by
  obtain ⟨before, m, after, rfl, effect, -⟩ := stands
  exact ⟨m, by simp, _, effect, rfl⟩

theorem touched_append (untouched : ¬m.Touches uri) :
    (∃ other ∈ history ++ [m], other.Touches uri) ↔ ∃ other ∈ history, other.Touches uri := by
  simp [or_and_right, exists_or, untouched]

theorem not_standing_nil : ¬Standing [] uri text := by
  rintro ⟨before, m, after, split, -⟩
  exact List.append_ne_nil_of_right_ne_nil before (List.cons_ne_nil m after) split.symm

theorem standing_append : Standing (history ++ [m]) uri text ↔
    m.effect? = some (.writes uri text) ∨ Standing history uri text ∧ ¬m.Touches uri := by
  constructor
  · rintro ⟨before, writer, after, split, effect, untouched⟩
    rcases List.eq_nil_or_concat after with rfl | ⟨between, last, rfl⟩
    · obtain ⟨-, rfl⟩ := List.append_singleton_inj.mp split
      exact .inl effect
    · rw [List.concat_eq_append, ← List.cons_append, ← List.append_assoc] at split
      obtain ⟨rfl, rfl⟩ := List.append_singleton_inj.mp split
      refine .inr ⟨⟨before, writer, between, rfl, effect, ?_⟩, untouched _ (by simp)⟩
      intro later member
      exact untouched later (by simp [member])
  · rintro (effect | ⟨⟨before, writer, after, rfl, effect, untouched⟩, last⟩)
    · exact ⟨history, m, [], rfl, effect, nofun⟩
    · refine ⟨before, writer, after ++ [m], by simp, effect, ?_⟩
      intro later member
      rcases List.mem_append.mp member with earlier | final
      · exact untouched later earlier
      · rw [List.mem_singleton.mp final]
        exact last

theorem standing_append_idle (idle : m.effect? = none) :
    Standing (history ++ [m]) uri text ↔ Standing history uri text := by
  have untouched : ¬m.Touches uri := Inbound.not_touches_idle idle
  rw [standing_append, idle]
  simp [untouched]

theorem standing_append_elsewhere {e : Effect} (effect : m.effect? = some e) (other : uri ≠ e.uri) :
    Standing (history ++ [m]) uri text ↔ Standing history uri text := by
  have untouched : ¬m.Touches uri := Inbound.not_touches effect other
  have unwritten : e ≠ .writes uri text := by
    rintro rfl
    exact other rfl
  rw [standing_append, effect]
  simp [untouched, unwritten]

theorem standing_append_here {e : Effect} (effect : m.effect? = some e) :
    Standing (history ++ [m]) e.uri text ↔ e = .writes e.uri text := by
  have touched : m.Touches e.uri := ⟨e, effect, rfl⟩
  rw [standing_append, effect]
  simp [touched]

theorem Effect.left_eq_some {e : Effect} {d : Document} :
    e.left? = some d ↔ ∃ text, e = .writes e.uri text ∧ d = Document.ofText text := by
  cases e with
  | writes uri text =>
    constructor
    · intro left
      exact ⟨text, rfl, (Option.some.inj left).symm⟩
    · rintro ⟨_, same, rfl⟩
      cases same
      rfl
  | closes uri =>
    constructor
    · intro left
      cases left
    · rintro ⟨_, same, -⟩
      cases same

end

/-! One message. -/

def notificationMethods : List Bytes :=
  [utf8 "initialized", utf8 "exit", utf8 "textDocument/didOpen", utf8 "textDocument/didChange",
   utf8 "textDocument/didClose"]

namespace Server
variable {s : Server} {m : Inbound} {e : Effect}

def held? (s : Server) (uri : Bytes) : Option Document := s.documents.lookup uri

theorem held_without (s : Server) (uri other : Bytes) :
    (s.without uri).held? other = if other = uri then none else s.held? other := by
  have filtered : ∀ documents : List (Bytes × Document),
      (documents.filter fun entry => entry.1 != uri).lookup other =
        if other = uri then none else documents.lookup other := by
    intro documents
    induction documents with
    | nil => simp
    | cons entry rest ih =>
      by_cases here : entry.1 = uri
      · rw [List.filter_cons_of_neg (by simp [here]), ih, lookup_cons, here]
        split <;> rfl
      · rw [List.filter_cons_of_pos (by simp [here]), lookup_cons, ih, lookup_cons]
        by_cases same : other = uri
        · rw [if_pos same, if_pos same, same, if_neg (Ne.symm here)]
        · rw [if_neg same, if_neg same]
  exact filtered s.documents

def carryOut (s : Server) : Effect → Server × List Outbound
  | .writes uri text => s.store uri text
  | .closes uri => s.close uri

theorem held_carryOut (s : Server) (e : Effect) (uri : Bytes) :
    (s.carryOut e).1.held? uri = if uri = e.uri then e.left? else s.held? uri := by
  cases e with
  | closes closed => exact s.held_without closed uri
  | writes written text =>
    have older := s.held_without written uri
    rw [carryOut, store, held?, lookup_cons]
    by_cases same : uri = written
    · rw [if_pos same]
      exact (if_pos same).symm
    · rw [if_neg same] at older ⊢
      exact older.trans (if_neg same).symm

theorem carryOut_nodup (once : (s.documents.map Prod.fst).Nodup) (e : Effect) :
    ((s.carryOut e).1.documents.map Prod.fst).Nodup := by
  have fewer : ∀ uri, ((s.without uri).documents.map Prod.fst).Nodup := by
    intro uri
    exact once.sublist (List.filter_sublist.map Prod.fst)
  cases e with
  | closes uri => exact fewer uri
  | writes uri text =>
    apply List.nodup_cons.mpr
    constructor
    · simp [without]
    · exact fewer uri

theorem handle_didOpen (opens : m.method = utf8 "textDocument/didOpen") (s : Server) :
    s.handle m = m.effect?.elim (s, []) s.carryOut := by
  have known : notification? m.method = some .didOpen := by rw [opens]; rfl
  have effect : m.effect? = (Params.decode? [Params.openedField] m.params).map
      fun p => .writes p.uri p.text := by
    rw [Inbound.effect?, opens]
    rfl
  rw [handle, known, effect]
  cases decoded : Params.decode? [Params.openedField] m.params <;>
    simp [notify, decoded, carryOut]

theorem handle_didChange (changes : m.method = utf8 "textDocument/didChange") (s : Server) :
    s.handle m = m.effect?.elim (s, []) s.carryOut := by
  have known : notification? m.method = some .didChange := by rw [changes]; rfl
  have effect : m.effect? =
      (Params.decode? [Params.documentField, Params.changesField] m.params).bind fun p =>
        p.changes.items.getLast?.map (.writes p.uri) := by
    rw [Inbound.effect?, changes]
    rfl
  rw [handle, known, effect]
  cases decoded : Params.decode? [Params.documentField, Params.changesField] m.params with
  | none => simp [notify, decoded]
  | some p => cases last : p.changes.items.getLast? <;> simp [notify, decoded, last, carryOut]

theorem handle_didClose (closes : m.method = utf8 "textDocument/didClose") (s : Server) :
    s.handle m = m.effect?.elim (s, []) s.carryOut := by
  have known : notification? m.method = some .didClose := by rw [closes]; rfl
  have effect : m.effect? = (Params.decode? [Params.documentField] m.params).map
      fun p => .closes p.uri := by
    rw [Inbound.effect?, closes]
    rfl
  rw [handle, known, effect]
  cases decoded : Params.decode? [Params.documentField] m.params <;>
    simp [notify, decoded, carryOut]

def answer (s : Server) (m : Inbound) (id : Json) : Outbound :=
  match s.respond m.method m.params with
  | .ok result => .result id result
  | .error e => .error id e

theorem handle_request (request : m.method ∉ notificationMethods) (s : Server) :
    m.effect? = none ∧ s.handle m = (s, (m.id.map (s.answer m)).toList) := by
  simp only [notificationMethods, List.mem_cons, List.not_mem_nil, or_false, not_or] at request
  obtain ⟨initialized, exit, opens, changes, closes⟩ := request
  have unknown : notification? m.method = none := by
    simp [notification?, initialized, exit, opens, changes, closes]
  refine ⟨by simp [Inbound.effect?, opens, changes, closes], ?_⟩
  rw [handle, unknown]
  cases m.id with
  | none => rfl
  | some id =>
    rw [Option.map_some, Option.toList_some, answer]
    cases s.respond m.method m.params <;> rfl

theorem handle_notification (notification : m.method ∈ notificationMethods) (s : Server) :
    s.handle m = m.effect?.elim (s, []) s.carryOut := by
  simp only [notificationMethods, List.mem_cons, List.not_mem_nil, or_false] at notification
  rcases notification with ignored | ignored | opens | changes | closes
  · rw [handle, Inbound.effect?, ignored]
    rfl
  · rw [handle, Inbound.effect?, ignored]
    rfl
  · exact handle_didOpen opens s
  · exact handle_didChange changes s
  · exact handle_didClose closes s

theorem handle_cases (s : Server) (m : Inbound) :
    (∃ e, m.effect? = some e ∧ s.handle m = s.carryOut e) ∨
      m.effect? = none ∧ (s.handle m).1 = s ∧
        ∀ uri list, .diagnostics uri list ∉ (s.handle m).2 := by
  by_cases notification : m.method ∈ notificationMethods
  · have does := handle_notification notification s
    cases effect : m.effect? with
    | some e => exact .inl ⟨e, rfl, by rw [does, effect, Option.elim_some]⟩
    | none =>
      rw [effect, Option.elim_none] at does
      rw [does]
      exact .inr ⟨rfl, rfl, nofun⟩
  · obtain ⟨effect, answers⟩ := handle_request notification s
    rw [answers]
    refine .inr ⟨effect, rfl, ?_⟩
    intro uri list member
    obtain ⟨id, -, answered⟩ := Option.map_eq_some_iff.mp (Option.mem_toList.mp member)
    rw [answer] at answered
    split at answered <;> cases answered

end Server

/-! Whole histories. -/

namespace Server

def run (s : Server) : List Inbound → Server × List Outbound
  | [] => (s, [])
  | m :: rest =>
    let (next, sent) := s.handle m
    let (last, more) := next.run rest
    (last, sent ++ more)

theorem run_append (s : Server) (history later : List Inbound) :
    s.run (history ++ later) = (((s.run history).1.run later).1,
      (s.run history).2 ++ ((s.run history).1.run later).2) := by
  induction history generalizing s with
  | nil => rfl
  | cons m history ih => simp only [List.cons_append, run, ih, List.append_assoc]

theorem run_concat (s : Server) (history : List Inbound) (m : Inbound) :
    s.run (history ++ [m]) =
      (((s.run history).1.handle m).1, (s.run history).2 ++ ((s.run history).1.handle m).2) := by
  rw [run_append]
  simp only [run, List.append_nil]

theorem held_run (history : List Inbound) (uri : Bytes) (d : Document) :
    (initial.run history).1.held? uri = some d ↔
      ∃ text, Standing history uri text ∧ d = Document.ofText text := by
  induction history using List.reverseRecOn with
  | nil =>
    constructor
    · intro held
      cases held
    · rintro ⟨text, stands, -⟩
      exact absurd stands not_standing_nil
  | append_singleton history m ih =>
    rw [run_concat]
    rcases (initial.run history).1.handle_cases m with ⟨e, effect, does⟩ | ⟨idle, same, -⟩
    · rw [does, held_carryOut]
      by_cases here : uri = e.uri
      · subst here
        rw [if_pos rfl, Effect.left_eq_some]
        simp only [standing_append_here effect]
      · rw [if_neg here, ih]
        simp only [standing_append_elsewhere effect here]
    · rw [same, ih]
      simp only [standing_append_idle idle]

theorem addresses_nodup (history : List Inbound) :
    ((initial.run history).1.documents.map Prod.fst).Nodup := by
  induction history using List.reverseRecOn with
  | nil => exact List.nodup_nil
  | append_singleton history m ih =>
    rw [run_concat]
    rcases (initial.run history).1.handle_cases m with ⟨e, -, does⟩ | ⟨-, same, -⟩
    · rw [does]
      exact carryOut_nodup ih e
    · rw [same]
      exact ih

/-! What is published. -/

end Server

def Outbound.published? (uri : Bytes) : Outbound → Option (List Diagnostic)
  | .diagnostics target list => if target == uri then some list else none
  | _ => none

def lastPublished (uri : Bytes) (sent : List Outbound) : Option (List Diagnostic) :=
  (sent.filterMap (Outbound.published? uri)).getLast?

theorem lastPublished_append (uri : Bytes) (sent more : List Outbound) :
    lastPublished uri (sent ++ more) = (lastPublished uri more).or (lastPublished uri sent) := by
  rw [lastPublished, List.filterMap_append, List.getLast?_append]
  rfl

theorem lastPublished_none {uri : Bytes} {sent : List Outbound}
    (silent : ∀ list, .diagnostics uri list ∉ sent) : lastPublished uri sent = none := by
  have nothing : sent.filterMap (Outbound.published? uri) = [] := by
    rw [List.filterMap_eq_nil_iff]
    intro o member
    cases o with
    | result id r => rfl
    | error id e => rfl
    | diagnostics target list =>
      have other : target ≠ uri := by
        rintro rfl
        exact silent list member
      simp [Outbound.published?, other]
  rw [lastPublished, nothing]
  rfl

namespace Server

theorem lastPublished_carryOut (s : Server) (e : Effect) (uri : Bytes) :
    lastPublished uri (s.carryOut e).2 =
      if uri = e.uri then some (e.left?.elim [] Document.diagnostics) else none := by
  by_cases here : uri = e.uri
  · subst here
    rw [if_pos rfl]
    cases e <;> simp [lastPublished, carryOut, store, close, Outbound.published?, Effect.left?,
      Effect.uri]
  · rw [if_neg here]
    apply lastPublished_none
    intro list member
    cases e <;> simp_all [carryOut, store, close, Effect.uri]

/-- Of an address that was written to or closed, the diagnostics of what is held there were
    published last, and none if nothing is. Of any other address nothing was published. -/
theorem lastPublished_run (history : List Inbound) (uri : Bytes) :
    (∃ m ∈ history, m.Touches uri) ∧ lastPublished uri (initial.run history).2 =
        some (((initial.run history).1.held? uri).elim [] Document.diagnostics) ∨
      (¬∃ m ∈ history, m.Touches uri) ∧ lastPublished uri (initial.run history).2 = none := by
  induction history using List.reverseRecOn with
  | nil => exact .inr ⟨nofun, rfl⟩
  | append_singleton history m ih =>
    rw [run_concat, lastPublished_append]
    dsimp only
    rcases (initial.run history).1.handle_cases m with ⟨e, effect, does⟩ | ⟨idle, same, silent⟩
    · rw [does, held_carryOut, lastPublished_carryOut]
      by_cases here : uri = e.uri
      · left
        refine ⟨⟨m, by simp, e, effect, here.symm⟩, ?_⟩
        rw [if_pos here, if_pos here]
        rfl
      · rw [if_neg here, if_neg here, touched_append (Inbound.not_touches effect here)]
        exact ih
    · rw [same, lastPublished_none (silent uri), touched_append (Inbound.not_touches_idle idle)]
      exact ih

/-! What is answered. -/

def HoldsSame (s t : Server) : Prop := ∀ uri, s.held? uri = t.held? uri

variable {s t : Server}

theorem HoldsSame.answer (same : s.HoldsSame t) (m : Inbound) : s.answer m = t.answer m := by
  have documents : ∀ uri, s.document uri = t.document uri := by
    intro uri
    exact congrArg (fun held : Option Document => held.getD (Document.ofText [])) (same uri)
  funext id
  simp only [Server.answer, respond, documents]

theorem HoldsSame.carryOut (same : s.HoldsSame t) (e : Effect) :
    (s.carryOut e).1.HoldsSame (t.carryOut e).1 ∧ (s.carryOut e).2 = (t.carryOut e).2 := by
  constructor
  · intro uri
    rw [held_carryOut, held_carryOut, same uri]
  · cases e <;> rfl

theorem HoldsSame.handle (same : s.HoldsSame t) (m : Inbound) :
    (s.handle m).1.HoldsSame (t.handle m).1 ∧ (s.handle m).2 = (t.handle m).2 := by
  by_cases notification : m.method ∈ notificationMethods
  · rw [handle_notification notification, handle_notification notification]
    cases m.effect? with
    | none => exact ⟨same, rfl⟩
    | some e => exact same.carryOut e
  · rw [(handle_request notification s).2, (handle_request notification t).2, same.answer]
    exact ⟨same, rfl⟩

theorem HoldsSame.run (same : s.HoldsSame t) (later : List Inbound) :
    (s.run later).2 = (t.run later).2 := by
  induction later generalizing s t with
  | nil => rfl
  | cons m later ih =>
    obtain ⟨next, sent⟩ := same.handle m
    simp only [Server.run, sent, ih next]

theorem holdsSame_of_standing {first second : List Inbound}
    (same : ∀ uri text, Standing first uri text ↔ Standing second uri text) :
    (initial.run first).1.HoldsSame (initial.run second).1 := by
  intro uri
  apply Option.ext
  intro d
  rw [held_run, held_run]
  simp only [same]

end Server

def Outbound.id? (o : Outbound) : Option Json :=
  match o.json with
  | .object members => members.lookup (utf8 "id")
  | _ => none

theorem Outbound.id_diagnostics (uri : Bytes) (list : List Diagnostic) :
    (Outbound.diagnostics uri list).id? = none := rfl

theorem Server.id_answer (s : Server) (m : Inbound) (id : Json) :
    (s.answer m id).id? = some id := by
  unfold Server.answer
  split <;> rfl

theorem Server.carryOut_has_no_id {s : Server} {e : Effect} {o : Outbound}
    (sent : o ∈ (s.carryOut e).2) : o.id? = none := by
  cases e with
  | writes uri text =>
    rw [List.mem_singleton.mp sent]
    exact Outbound.id_diagnostics uri _
  | closes uri =>
    rw [List.mem_singleton.mp sent]
    exact Outbound.id_diagnostics uri _

/-- The server holds the standing texts, has published their diagnostics last, and answers a request
    by its id and nothing else. Histories that leave the same texts standing are answered alike
    from there on. -/
theorem editor_follows_standing_texts :
    (∀ (history : List Inbound) (uri : Bytes),
      let server := (Server.initial.run history).1
      let sent := (Server.initial.run history).2
      (server.documents.map Prod.fst).Nodup ∧
        (∀ d, server.documents.lookup uri = some d ↔
          ∃ text, Standing history uri text ∧ d = Document.ofText text) ∧
        (∀ text, Standing history uri text →
          lastPublished uri sent = some (Document.ofText text).diagnostics) ∧
        ((∀ text, ¬Standing history uri text) → (∃ m ∈ history, m.Touches uri) →
          lastPublished uri sent = some []) ∧
        ((¬∃ m ∈ history, m.Touches uri) → lastPublished uri sent = none)) ∧
    (∀ payload m, Inbound.ofBytes? payload = some m → m.id ≠ some .null) ∧
    (∀ (s : Server) (m : Inbound),
      (m.method ∉ notificationMethods →
        (∀ id, m.id = some id → ∃ reply, (s.handle m).2 = [reply] ∧ reply.id? = some id) ∧
          (m.id = none → (s.handle m).2 = [])) ∧
        (m.method ∈ notificationMethods → ∀ o ∈ (s.handle m).2, o.id? = none)) ∧
    ∀ first second : List Inbound,
      (∀ uri text, Standing first uri text ↔ Standing second uri text) →
        ∀ later, ((Server.initial.run first).1.run later).2 =
          ((Server.initial.run second).1.run later).2 := by
  refine ⟨?_, ?_, ?_, ?_⟩
  · intro history uri
    have published := Server.lastPublished_run history uri
    have held := Server.held_run history uri
    refine ⟨Server.addresses_nodup history, held, ?_, ?_, ?_⟩
    · intro text stands
      have here := (held _).mpr ⟨text, stands, rfl⟩
      rcases published with ⟨-, last⟩ | ⟨never, -⟩
      · rw [last, here]
        rfl
      · exact absurd stands.touched never
    · intro closed touched
      have nothing : (Server.initial.run history).1.held? uri = .none := by
        apply Option.eq_none_iff_forall_ne_some.mpr
        intro d here
        obtain ⟨text, stands, -⟩ := (held d).mp here
        exact closed text stands
      rcases published with ⟨-, last⟩ | ⟨never, -⟩
      · rw [last, nothing]
        rfl
      · exact absurd touched never
    · intro never
      rcases published with ⟨touched, -⟩ | ⟨-, nothing⟩
      · exact absurd touched never
      · exact nothing
  · intro payload m decoded
    exact Inbound.id_ne_null decoded
  · intro s m
    constructor
    · intro request
      rw [(Server.handle_request request s).2]
      constructor
      · intro id given
        rw [given]
        exact ⟨_, rfl, s.id_answer m id⟩
      · intro notified
        rw [notified]
        rfl
    · intro notification o sent
      rw [Server.handle_notification notification s] at sent
      cases effect : m.effect? with
      | none => simp [effect] at sent
      | some e =>
        rw [effect] at sent
        exact Server.carryOut_has_no_id sent
  · intro first second same later
    exact (Server.holdsSame_of_standing same).run later

def opening (uri text : String) : Inbound :=
  ⟨none, utf8 "textDocument/didOpen", some (Json.ofMembers [("textDocument", Json.ofMembers
    [("uri", Json.ofText (utf8 uri)), ("text", Json.ofText (utf8 text))])])⟩

def closing (uri : String) : Inbound :=
  ⟨none, utf8 "textDocument/didClose", some (Json.ofMembers [("textDocument", Json.ofMembers
    [("uri", Json.ofText (utf8 uri))])])⟩

theorem effect_opening : (opening "a" "pu").effect? = some (.writes (utf8 "a") (utf8 "pu")) := by
  decide +kernel

theorem effect_closing : (closing "b").effect? = some (.closes (utf8 "b")) := by decide +kernel

def changedDocument : List Inbound := [opening "a" "fd"] ++ [opening "a" "pu"]

def onlyDocument : List Inbound := [opening "b" ""] ++ [closing "b"] ++ [opening "a" "pu"]

theorem not_standing_closed (text : Bytes) : ¬Standing onlyDocument (utf8 "b") text := by
  intro stands
  have before := (standing_append_elsewhere effect_opening (by decide)).mp stands
  cases (standing_append_here effect_closing).mp before

theorem standing_changed_iff_only (uri text : Bytes) :
    Standing changedDocument uri text ↔ Standing onlyDocument uri text := by
  by_cases here : uri = utf8 "a"
  · subst here
    exact (standing_append_here effect_opening).trans (standing_append_here effect_opening).symm
  · have changed : ¬Standing changedDocument uri text := by
      have first : (opening "a" "fd").effect? = some (.writes (utf8 "a") (utf8 "fd")) := rfl
      intro stands
      have before : Standing ([] ++ [opening "a" "fd"]) uri text :=
        (standing_append_elsewhere effect_opening here).mp stands
      exact not_standing_nil ((standing_append_elsewhere first here).mp before)
    have only : ¬Standing onlyDocument uri text := by
      have opened : (opening "b" "").effect? = some (.writes (utf8 "b") []) := rfl
      intro stands
      by_cases there : uri = utf8 "b"
      · subst there
        exact not_standing_closed text stands
      · have both := (standing_append_elsewhere effect_opening here).mp stands
        have before : Standing ([] ++ [opening "b" ""]) uri text :=
          (standing_append_elsewhere effect_closing there).mp both
        exact not_standing_nil ((standing_append_elsewhere opened there).mp before)
    exact iff_of_false changed only

/-- The two are told apart neither by what is published nor by what is answered. -/
theorem editor_follows_standing_texts_of_changed :
    Standing changedDocument (utf8 "a") (utf8 "pu") ∧
      lastPublished (utf8 "a") (Server.initial.run changedDocument).2 =
        some (Document.ofText (utf8 "pu")).diagnostics ∧
      lastPublished (utf8 "b") (Server.initial.run onlyDocument).2 = some [] ∧
      (∃ reply, (Server.initial.handle ⟨some (Json.ofNat 1), utf8 "shutdown", none⟩).2 = [reply] ∧
        reply.id? = some (Json.ofNat 1)) ∧
      ∀ later, ((Server.initial.run changedDocument).1.run later).2 =
        ((Server.initial.run onlyDocument).1.run later).2 := by
  obtain ⟨follows, -, answers, alike⟩ := editor_follows_standing_texts
  have stands : Standing changedDocument (utf8 "a") (utf8 "pu") :=
    standing_append.mpr (.inl effect_opening)
  obtain ⟨-, -, published, -, -⟩ := follows changedDocument (utf8 "a")
  obtain ⟨-, -, -, emptied, -⟩ := follows onlyDocument (utf8 "b")
  refine ⟨stands, published _ stands, ?_, ?_, alike _ _ standing_changed_iff_only⟩
  · have touched : ∃ m ∈ onlyDocument, m.Touches (utf8 "b") :=
      ⟨closing "b", by simp [onlyDocument], .closes (utf8 "b"), effect_closing, rfl⟩
    exact emptied not_standing_closed touched
  · exact ((answers _ _).1 (by decide)).1 _ rfl

end TurtleLogo.Editor
