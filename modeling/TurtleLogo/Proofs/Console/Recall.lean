import TurtleLogo.Proofs.Console.Record
import TurtleLogo.Proofs.Indent.Levels
import TurtleLogo.Proofs.Parse.Messages
import TurtleLogo.Proofs.Scan.Comments
import TurtleLogo.Proofs.Text.Encoded

/-!
What the console recalls. An entry of the history may have several lines and the input line has only
one, so newlines become spaces. Everything else was in an input line before, and is admitted again
as it is. So a recalled entry has the tokens of its lines up to the first one with a comment, and if
there are none behind that, it is the same program.
-/
namespace TurtleLogo

theorem alike_of_tokenPieces {source other : Text.Bytes}
    (same : tokenPieces source = tokenPieces other) :
    List.Forall₂ Token.Alike (tokenize source).tokens (tokenize other).tokens := by
  rw [tokenPieces, tokenPieces, ← List.forall₂_eq_eq_eq, List.forall₂_map_left_iff,
    List.forall₂_map_right_iff] at same
  exact same.imp fun _ _ piece =>
    ⟨congrArg Scan.Piece.kind piece, fun _ => congrArg Scan.Piece.text piece⟩

namespace Console
open Text Files Scan

def Admissible (r : Rune) : Prop := Scalar r ∧ Line.admitted? r = some r

def Typable (text : Bytes) : Prop := ∃ rs : List Rune, (∀ r ∈ rs, Admissible r) ∧ text = ofRunes rs

def flattened (entry : Bytes) : Bytes := joined [space] (lines entry)

namespace Line
variable {l : Line}

theorem admitted_admissible (text : Bytes) : ∀ r ∈ admitted text, Admissible r := by
  intro r member
  obtain ⟨s, listed, entered⟩ := List.mem_filterMap.mp member
  have either : r = 32 ∨ r = s := by
    unfold admitted? at entered
    split at entered
    · exact .inl (Option.some.inj entered).symm
    split at entered
    · contradiction
    · exact .inr (Option.some.inj entered).symm
  rcases either with rfl | rfl
  · exact ⟨by unfold Scalar; omega, rfl⟩
  · exact ⟨runes_scalar text _ listed, entered⟩

def Clean (l : Line) : Prop := ∀ r ∈ l.runes, Admissible r

theorem Clean.of_subset {after : Line} (clean : l.Clean) (fewer : after.runes ⊆ l.runes) :
    after.Clean :=
  fun r member => clean r (fewer member)

theorem set_runes (l : Line) (text : Bytes) : (l.set text).runes = (admitted text).take limit := by
  unfold set runes
  dsimp only
  generalize (if (l.before ++ l.behind).isEmpty = true then limit else l.before.length) = place
  split
  · exact List.append_nil _
  · exact List.take_append_drop _ _

theorem set_clean (l : Line) (text : Bytes) : (l.set text).Clean := by
  intro r member
  rw [set_runes] at member
  exact admitted_admissible text r (List.mem_of_mem_take member)

theorem toEnd_runes (l : Line) : l.toEnd.runes = l.runes := List.append_nil _

theorem withoutLastWord_subset (rs : List Rune) : withoutLastWord rs ⊆ rs := by
  cases rs with
  | nil => exact List.Subset.refl _
  | cons first rest =>
    have kept : ∀ r ∈ (rest.reverse.dropWhile isBlank).dropWhile (!isBlank ·), r ∈ rest :=
      fun r member => List.mem_reverse.mp
        ((List.dropWhile_sublist _).subset ((List.dropWhile_sublist _).subset member))
    rw [withoutLastWord]
    generalize (rest.reverse.dropWhile isBlank).dropWhile (!isBlank ·) = others at kept ⊢
    cases others with
    | nil => exact List.nil_subset _
    | cons r others =>
      exact List.cons_subset_cons first fun s member => kept s (List.mem_reverse.mp member)

theorem back_runes (l : Line) (count : Nat) : (l.back count).runes = l.runes := by
  unfold back runes
  rw [← List.append_assoc, List.take_append_drop]

theorem ahead_runes (l : Line) (count : Nat) : (l.ahead count).runes = l.runes := by
  unfold ahead runes
  rw [List.append_assoc, List.take_append_drop]

theorem parts_subset {before behind : List Rune} (front : before ⊆ l.before)
    (back : behind ⊆ l.behind) : (⟨before, behind⟩ : Line).runes ⊆ l.runes := by
  intro r member
  rcases List.mem_append.mp member with first | second
  · exact List.mem_append_left _ (front first)
  · exact List.mem_append_right _ (back second)

theorem edited_subset (l : Line) (e : Edit) :
    (l.edited e).Always fun after => after.runes ⊆ l.runes := by
  cases e with
  | nothing | toStart => exact .pure (List.Subset.refl _)
  | toEnd => exact .pure (l.toEnd_runes ▸ List.Subset.refl _)
  | back | wordBack => exact .pure (l.back_runes _ ▸ List.Subset.refl _)
  | ahead | wordAhead => exact .pure (l.ahead_runes _ ▸ List.Subset.refl _)
  | eraseBack => exact .pure (parts_subset (List.dropLast_subset _) (List.Subset.refl _))
  | eraseAhead => exact .pure (parts_subset (List.Subset.refl _) (List.drop_subset _ _))
  | eraseWordBack => exact .pure (parts_subset (withoutLastWord_subset _) (List.Subset.refl _))
  | eraseToStart => exact .pure (parts_subset (List.nil_subset _) (List.Subset.refl _))
  | eraseWordAhead =>
    rw [edited, eraseWordAhead]
    split
    · exact .pure (List.Subset.refl _)
    · exact .halt _
    · next first rest several starts =>
      refine .pure (parts_subset (List.Subset.refl _) ?_)
      rw [starts]
      exact List.subset_cons_of_subset first (List.drop_subset _ rest)

theorem typed_clean (clean : l.Clean) (text : Bytes) : (l.typed text).Always Clean := by
  unfold typed
  split
  · exact (l.edited_subset _).mono fun _ fewer => clean.of_subset fewer
  · refine .pure fun r member => ?_
    unfold insert runes at member
    rcases List.mem_append.mp member with front | behind
    · rcases List.mem_append.mp front with before | entered
      · exact clean r (List.mem_append_left _ before)
      · exact admitted_admissible text r (List.mem_of_mem_take entered)
    · exact clean r (List.mem_append_right _ behind)

end Line

namespace Typable
variable {text : Bytes}

theorem of_clean {l : Line} (clean : l.Clean) : Typable l.text := ⟨l.runes, clean, rfl⟩

theorem trim (typable : Typable text) : Typable (trim text) := by
  obtain ⟨rs, admissible, rfl⟩ := typable
  obtain ⟨kept, fewer, trimmed⟩ := trim_ofRunes fun r member => (admissible r member).1
  exact ⟨kept, fun r member => admissible r (fewer member), trimmed⟩

theorem runes_admissible (typable : Typable text) : ∀ r ∈ runes text, Admissible r := by
  obtain ⟨rs, admissible, rfl⟩ := typable
  rwa [runes_ofRunes fun r member => (admissible r member).1]

theorem one_line (typable : Typable text) : newline ∉ text := by
  intro member
  obtain ⟨front, back, rfl⟩ := List.append_of_mem member
  have listed : 10 ∈ runes (front ++ newline :: back) := by
    rw [runes_append (.newline_right front back), runes_cons_low (by decide)]
    exact List.mem_append_right _ List.mem_cons_self
  exact absurd (typable.runes_admissible 10 listed).2 (by decide)

theorem admitted_eq (typable : Typable text) : Line.admitted text = runes text := by
  have same : ∀ r ∈ runes text, Line.admitted? r = some r := fun r member =>
    (typable.runes_admissible r member).2
  rw [Line.admitted, List.filterMap_congr same, List.filterMap_some]

theorem ofRunes_eq (typable : Typable text) : ofRunes (runes text) = text := by
  obtain ⟨rs, admissible, rfl⟩ := typable
  rw [runes_ofRunes fun r member => (admissible r member).1]

end Typable

theorem admitted_joined {ls : List Bytes} (typable : ∀ line ∈ ls, Typable line) :
    ofRunes (Line.admitted (joined [newline] ls)) = joined [space] ls ∧
      (Line.admitted (joined [newline] ls)).length = runeCount (joined [newline] ls) := by
  induction ls with
  | nil => exact ⟨rfl, rfl⟩
  | cons line rest ih =>
    obtain ⟨first, others⟩ := List.forall_mem_cons.mp typable
    cases rest with
    | nil =>
      have alone (sep : Bytes) : joined sep [line] = line := List.intercalate_singleton
      rw [alone, alone, first.admitted_eq, first.ofRunes_eq, runes, List.length_map]
      exact ⟨rfl, rfl⟩
    | cons next more =>
      have parts (sep : Bytes) : joined sep (line :: next :: more) =
          line ++ (sep ++ joined sep (next :: more)) := by
        rw [joined, List.intercalate_cons_cons, List.append_assoc]
        rfl
      obtain ⟨bytes, size⟩ := ih others
      rw [parts, parts]
      generalize joined [newline] (next :: more) = entry at bytes size
      generalize joined [space] (next :: more) = flat at bytes
      have read : runes (line ++ ([newline] ++ entry)) = runes line ++ 10 :: runes entry := by
        rw [List.singleton_append, runes_append (.newline_right line entry),
          runes_cons_low (by decide)]
        rfl
      have admitted : Line.admitted (line ++ ([newline] ++ entry)) =
          runes line ++ 32 :: Line.admitted entry := by
        have own := first.admitted_eq
        rw [Line.admitted] at own
        rw [Line.admitted, read, List.filterMap_append, own]
        rfl
      have counted (text : Bytes) : runeCount text = (runes text).length :=
        (List.length_map _).symm
      rw [admitted]
      constructor
      · rw [ofRunes, List.flatMap_append, List.flatMap_cons, ← ofRunes, ← ofRunes,
          first.ofRunes_eq, bytes]
        rfl
      · rw [counted, read, List.length_append, List.length_append, List.length_cons,
          List.length_cons, size, counted]

namespace State
variable {s : State}

theorem enterLine_input (s : State) (line : Bytes) : (s.enterLine line).input = s.input := by
  unfold enterLine
  dsimp only
  split <;> rfl

theorem submit_clean (s : State) : s.submit.Always fun step => step.state.input.Clean := by
  have emptied : s.taken.input.Clean := s.input.set_clean []
  rw [submit_eq]
  split
  · exact .pure emptied
  split
  · exact (s.taken.perform_framed _).mono fun step ⟨framed, _⟩ => framed.input ▸ emptied
  · exact .pure (s.taken.enterLine_input _ ▸ emptied)

theorem recallAt_clean (s : State) (index : Nat) : (s.recallAt index).input.Clean := by
  unfold recallAt
  split
  · intro r member
    rw [Line.toEnd_runes] at member
    exact Line.set_clean _ _ r member
  · exact Line.set_clean _ _

theorem press_clean (clean : s.input.Clean) (key : Key) :
    (s.press key).Always fun step => step.state.input.Clean := by
  cases key with
  | enter => exact s.submit_clean
  | quit | clear | bindings | help | canvas => exact .pure clean
  | escape =>
    apply Plan.Always.pure
    unfold stay dropPending
    split
    · exact clean
    · exact Line.set_clean _ _
  | up =>
    apply Plan.Always.pure
    unfold stay recallOlder
    repeat' split
    all_goals first | exact clean | exact recallAt_clean _ _
  | down =>
    apply Plan.Always.pure
    unfold stay recallNewer
    split
    · exact clean
    · exact recallAt_clean _ _
  | tab =>
    apply Plan.Always.pure
    unfold stay complete
    dsimp only
    split
    · exact clean
    split
    · exact clean
    · intro r member
      rw [Line.toEnd_runes] at member
      exact Line.set_clean _ _ r member
    · exact clean

theorem act_clean (clean : s.input.Clean) (a : Action) :
    (s.act a).Always fun step => step.state.input.Clean := by
  cases a with
  | setInput text => exact .pure (Line.set_clean _ _)
  | resize width height => exact .pure clean
  | press key => exact press_clean clean key
  | type text =>
    rw [act]
    split
    · exact press_clean clean _
    · apply (Line.typed_clean clean text).bind
      intro line typed
      exact .pure typed

/-- Everything that the console holds on to was in its input line. -/
structure Typed (s : State) : Prop where
  input : s.input.Clean
  pending : ∀ line ∈ s.pending, Typable line
  history : ∀ entry ∈ s.history, ∃ ls, ls ≠ [] ∧ (∀ line ∈ ls, Typable line) ∧
    entry = joined [newline] ls

theorem Typed.agreeing {after : State} (typed : s.Typed) (clean : after.input.Clean)
    (pending : after.pending = s.pending) (history : after.history = s.history) : after.Typed := by
  refine ⟨clean, ?_, ?_⟩
  · rw [pending]
    exact typed.pending
  · rw [history]
    exact typed.history

theorem Turn.typed {told : List Said} {after : State} (turn : Turn s told after) (typed : s.Typed)
    (clean : after.input.Clean) : after.Typed := by
  cases turn with
  | quiet agrees recalls => exact typed.agreeing clean agrees.pending agrees.history
  | drop =>
    obtain ⟨emptied, history, -⟩ := s.dropPending_drops
    refine ⟨clean, ?_, ?_⟩
    · rw [emptied]
      exact fun line member => absurd member List.not_mem_nil
    · rw [history]
      exact typed.history
  | blank fresh => exact ⟨clean, typed.pending, typed.history⟩
  | command fresh entered colon agrees cleared =>
    exact typed.agreeing clean agrees.pending agrees.history
  | @line line entered takes =>
    have lines : ∀ line' ∈ s.pending ++ [line], Typable line' := by
      intro line' member
      rcases List.mem_append.mp member with held | last
      · exact typed.pending line' held
      · obtain rfl := List.mem_singleton.mp last
        exact entered ▸ (Typable.of_clean typed.input).trim
    by_cases unfinished : 0 < openDepth (joined [newline] (s.pending ++ [line]))
    · rw [enterLine_of_open (s := s.taken) unfinished] at clean ⊢
      exact ⟨clean, lines, typed.history⟩
    · rw [enterLine_of_closed (s := s.taken) unfinished] at clean ⊢
      refine ⟨clean, fun line' member => absurd member List.not_mem_nil, ?_⟩
      intro entry member
      rcases List.mem_append.mp member with earlier | last
      · exact typed.history entry earlier
      · obtain rfl := List.mem_singleton.mp last
        exact ⟨_, by simp, lines, rfl⟩

theorem Conversation.typed {random : Random.Stream} {log : List Said}
    (talk : Conversation random log s) : s.Typed := by
  induction talk with
  | start =>
    exact ⟨fun r member => absurd member List.not_mem_nil,
      fun line member => absurd member List.not_mem_nil,
      fun entry member => absurd member List.not_mem_nil⟩
  | acted a fs before ran ih =>
    exact ((act_turn _ a).on ran).typed ih ((act_clean ih.input a).on ran)

theorem recallAt_recalled {i index : Nat} (recalled : (s.recallAt index).recalled = some i) :
    i = index := by
  unfold recallAt at recalled
  split at recalled
  · exact (Option.some.inj recalled).symm
  · cases recalled

theorem press_recalls (recalls : s.Recalls) {key : Key} {after : State}
    (walks : key = .up ∨ key = .down) (pressed : s.press key = pure after.stay) {i : Nat}
    (recalled : after.recalled = some i) : after = s.recallAt i := by
  rcases walks with rfl | rfl
  · obtain rfl : s.recallOlder = after := congrArg Step.state (Plan.done.inj pressed)
    unfold recallOlder at recalled ⊢
    split at recalled
    · next empty =>
      have inside := recalls i recalled
      rw [List.isEmpty_iff.mp empty] at inside
      exact absurd inside (Nat.not_lt_zero i)
    next filled =>
    rw [if_neg filled]
    split at recalled <;> rw [recallAt_recalled recalled]
  · obtain rfl : s.recallNewer = after := congrArg Step.state (Plan.done.inj pressed)
    unfold recallNewer at recalled ⊢
    split at recalled
    · next fresh => rw [fresh] at recalled; cases recalled
    · rw [recallAt_recalled recalled]

theorem recallAt_of_lt {index : Nat} (inside : index < s.history.length) :
    (s.recallAt index).recalled = some index := by
  unfold recallAt
  rw [List.getElem?_eq_getElem inside]

theorem recallOlder_iterate (fresh : s.recalled = none) {k : Nat} (inside : k < s.history.length) :
    (recallOlder^[k + 1] s).recalled = some (s.history.length - 1 - k) ∧
      (recallOlder^[k + 1] s).history = s.history := by
  have filled (t : State) (same : t.history = s.history) : ¬t.history.isEmpty = true := by
    intro empty
    rw [same, List.isEmpty_iff] at empty
    rw [empty] at inside
    exact absurd inside (Nat.not_lt_zero k)
  induction k with
  | zero =>
    have first : s.recallOlder = s.recallAt (s.history.length - 1) := by
      rw [recallOlder, if_neg (filled s rfl), fresh]
    rw [Function.iterate_one, first]
    exact ⟨recallAt_of_lt (by omega), (s.recallAt_agrees _).history⟩
  | succ k ih =>
    obtain ⟨recalled, history⟩ := ih (by omega)
    rw [Function.iterate_succ_apply']
    generalize recallOlder^[k + 1] s = t at recalled history
    have next : t.recallOlder = t.recallAt (s.history.length - 1 - (k + 1)) := by
      rw [recallOlder, if_neg (filled t history), recalled]
      rfl
    rw [next]
    refine ⟨recallAt_of_lt ?_, (t.recallAt_agrees _).history.trans history⟩
    rw [history]
    omega

theorem recallAt_input {i : Nat} {entry : Bytes} (found : s.history[i]? = some entry) :
    (s.recallAt i).input.runes = (Line.admitted entry).take Line.limit := by
  unfold recallAt
  rw [found]
  exact (Line.toEnd_runes _).trans (Line.set_runes _ _)

theorem Typed.recalled {i : Nat} {entry : Bytes} (typed : s.Typed)
    (found : s.history[i]? = some entry) (fits : runeCount entry ≤ Line.limit) :
    (s.recallAt i).input.text = flattened entry := by
  obtain ⟨ls, nonempty, typable, rfl⟩ := typed.history entry (List.mem_of_getElem? found)
  have one : ∀ line ∈ ls, newline ∉ line := fun line member => (typable line member).one_line
  obtain ⟨bytes, size⟩ := admitted_joined typable
  rw [Line.text, recallAt_input found, List.take_of_length_le (by omega), bytes, flattened,
    lines_joined nonempty one]

end State

theorem flattened_one_line {entry : Bytes} : newline ∉ flattened entry := by
  intro member
  rcases mem_joined_by member with between | ⟨line, listed, inside⟩
  · exact absurd between (by decide)
  · exact newline_not_mem_line entry line listed inside

theorem parse_flattened {entry : Bytes} {p : Program} (accepted : parse entry = .ok p)
    (kept : tokenPieces (flattened entry) = tokenPieces entry) :
    ∃ q, parse (trim (flattened entry)) = .ok q ∧
      unplacedAll q.statements = unplacedAll p.statements := by
  have clean := (parse_eq_ok_iff.mp accepted).1
  have legal : Legal (joined [newline] (lines entry)) := by
    rw [joined_lines]
    exact (tokenize_errors entry).mp clean
  have flat : Legal (flattened entry) := legal_spaced (newline_not_mem_line entry) legal
  have trimmed : Legal (trim (flattened entry)) := by
    rw [Legal, Indent.solid_trim flat flattened_one_line]
    exact flat
  have same : tokenPieces entry = tokenPieces (trim (flattened entry)) := by
    rw [Indent.tokenPieces_trim flat flattened_one_line, kept]
  rcases parse_of_alike clean ((tokenize_errors _).mpr trimmed) (alike_of_tokenPieces same) with
    ⟨p', q, acceptedEntry, acceptedFlat, statements⟩ | ⟨e, -, rejected, -⟩
  · obtain rfl := Except.ok.inj (accepted.symm.trans acceptedEntry)
    exact ⟨q, acceptedFlat, statements.symm⟩
  · rw [accepted] at rejected
    cases rejected

/-- Pressing up goes through all entries of the history. An entry that fits in the input line is
    recalled with spaces for its newlines, so the input line has the tokens of its lines up to the
    first one with a comment. These are all tokens of the entry if and only if there are none behind
    that line. Then the entry, if it was a program, is the same program again when it is
    submitted. -/
theorem recalled_entries_keep_tokens_up_to_comments {random : Random.Stream} {log : List Said}
    {s : State} (talk : s.Conversation random log) :
    (s.recalled = none → ∀ i < s.history.length,
      (State.recallOlder^[s.history.length - i] s).recalled = some i) ∧
    ∀ (key : Key) (after : State) (i : Nat) (entry : Bytes), key = .up ∨ key = .down →
      s.press key = pure after.stay → after.recalled = some i → s.history[i]? = some entry →
      runeCount entry ≤ Line.limit →
      after.input.text = flattened entry ∧
        tokenPieces after.input.text = (keptLines (lines entry)).flatMap tokenPieces ∧
        (tokenPieces after.input.text = tokenPieces entry ↔
          ∀ line ∈ lostLines (lines entry), tokenPieces line = []) ∧
        ∀ p, parse entry = .ok p → s.pending = [] →
          (∀ line ∈ lostLines (lines entry), tokenPieces line = []) →
          ∃ (q : Program) (done : State), parse after.entered = .ok q ∧
            unplacedAll q.statements = unplacedAll p.statements ∧
            after.submit = pure done.stay ∧
            done.session = (s.session.exec .none false after.entered).session := by
  have typed := talk.typed
  have recalls := talk.sound.recalls
  constructor
  · intro fresh i inside
    obtain ⟨k, more⟩ := Nat.exists_eq_succ_of_ne_zero (n := s.history.length - i) (by omega)
    have index : s.history.length - 1 - k = i := by omega
    rw [more, ← index]
    exact (State.recallOlder_iterate fresh (by omega)).1
  intro key after i entry walks pressed recalled found fits
  obtain rfl := State.press_recalls recalls walks pressed recalled
  have text := typed.recalled found fits
  have one := newline_not_mem_line entry
  have tokens := tokenPieces_spaced_iff one
  rw [joined_lines, ← flattened] at tokens
  rw [text]
  refine ⟨rfl, tokenPieces_spaced one, tokens, ?_⟩
  intro p accepted fresh nothing
  obtain ⟨q, acceptedFlat, same⟩ := parse_flattened accepted (tokens.mpr nothing)
  have entered : (s.recallAt i).entered = trim (flattened entry) := by
    rw [State.entered_fresh ((s.recallAt_agrees i).pending.trans fresh), text]
  rw [← entered] at acceptedFlat
  obtain ⟨done, submitted, -, session, -⟩ := State.submit_program acceptedFlat
  refine ⟨q, done, acceptedFlat, same, submitted, ?_⟩
  rw [session, (s.recallAt_agrees i).session]

def closingNote : Bytes := utf8 "to f\nend ; done"

/-- Nothing stands behind the comment, so the procedure is defined once more. -/
theorem recalled_entries_keep_tokens_up_to_comments_of_closing_note :
    ∃ (log : List Said) (s : State), s.Conversation ⟨0, 0⟩ log ∧ s.history = [closingNote] ∧
      s.recallOlder.recalled = some 0 ∧ s.recallOlder.input.text = utf8 "to f end ; done" ∧
      tokenPieces s.recallOlder.input.text = tokenPieces closingNote ∧
      ∃ (p q : Program) (done : State), parse closingNote = .ok p ∧
        parse s.recallOlder.entered = .ok q ∧
        unplacedAll q.statements = unplacedAll p.statements ∧
        s.recallOlder.submit = pure done.stay ∧
        done.session = (s.session.exec .none false s.recallOlder.entered).session := by
  obtain ⟨s, acted, history, walking, nothing, fits, kept, flat, p, accepted⟩ :
      ∃ s ∈ (State.start ⟨0, 0⟩).after? [.setInput (utf8 "to f"), .press .enter,
          .setInput (utf8 "end ; done"), .press .enter],
        s.history = [closingNote] ∧ s.recalled = none ∧ s.pending = [] ∧
        runeCount closingNote ≤ Line.limit ∧
        (∀ line ∈ lostLines (lines closingNote), tokenPieces line = []) ∧
        flattened closingNote = utf8 "to f end ; done" ∧ ∃ p, parse closingNote = .ok p := by
    decide +kernel
  obtain ⟨log, talk⟩ := (State.Reached.start.after acted).conversation
  obtain ⟨older, recalls⟩ := recalled_entries_keep_tokens_up_to_comments talk
  rw [history] at older recalls
  have recalled := older walking 0 (by decide)
  obtain ⟨text, -, same, again⟩ :=
    recalls .up s.recallOlder 0 closingNote (.inl rfl) rfl recalled rfl fits
  obtain ⟨q, done, readAgain, statements, submitted, session⟩ := again p accepted nothing kept
  exact ⟨log, s, talk, history, recalled, text.trans flat, same.mpr kept, p, q, done, accepted,
    readAgain, statements, submitted, session⟩

def openingNote : Bytes := utf8 "to f ; nothing\nend"

/-- The comment goes on to the end of the recalled line, which leaves the procedure open. -/
theorem comment_swallows_next_line :
    ∃ (log : List Said) (s : State), s.Conversation ⟨0, 0⟩ log ∧ s.history = [openingNote] ∧
      runeCount openingNote ≤ Line.limit ∧ (∃ p, parse openingNote = .ok p) ∧
      s.press .up = pure s.recallOlder.stay ∧ s.recallOlder.recalled = some 0 ∧
      s.recallOlder.input.text = utf8 "to f ; nothing end" ∧
      tokenPieces (utf8 "to f ; nothing end") ≠ tokenPieces openingNote ∧
      ∃ e, parse s.recallOlder.entered = .error e := by
  obtain ⟨s, acted, history, fits, accepted, recalled, text, changed, rejected⟩ :
      ∃ s ∈ (State.start ⟨0, 0⟩).after? [.setInput (utf8 "to f ; nothing"), .press .enter,
          .setInput (utf8 "end"), .press .enter],
        s.history = [openingNote] ∧ runeCount openingNote ≤ Line.limit ∧
        (∃ p, parse openingNote = .ok p) ∧ s.recallOlder.recalled = some 0 ∧
        s.recallOlder.input.text = utf8 "to f ; nothing end" ∧
        tokenPieces (utf8 "to f ; nothing end") ≠ tokenPieces openingNote ∧
        ∃ e, parse s.recallOlder.entered = .error e := by decide +kernel
  obtain ⟨log, talk⟩ := (State.Reached.start.after acted).conversation
  exact ⟨log, s, talk, history, fits, accepted, rfl, recalled, text, changed, rejected⟩

end Console
end TurtleLogo
