import TurtleLogo.Proofs.Parse.Faithful

/-!
Expressions in layers. The grammar has one production for each layer of operators: a sum is made of
products, a product of atoms. Reading an expression by these productions comes to the same as
climbing the levels of its operators, whatever the tokens, the place and the procedures known there:
to the same tree and the same place behind it, or to the same error at the same token.
-/
namespace TurtleLogo
open Text

namespace Parsed
variable {α β : Type} {c : Cursor} {r : Parsed α}

theorem bind_congr {f g : α → Cursor → Parsed β}
    (same : ∀ a next, r = .ok a next → f a next = g a next) : r.bind f = r.bind g := by
  cases r with
  | ok a next => exact same a next rfl
  | fail error resume => rfl

theorem bind_bind {γ : Type} (r : Parsed α) (f : α → Cursor → Parsed β)
    (g : β → Cursor → Parsed γ) : (r.bind f).bind g = r.bind fun a c => (f a c).bind g := by
  cases r <;> rfl

def behind (c : Cursor) (r : Parsed α)
    (f : α → (next : Cursor) → next.rest.length < c.rest.length → Parsed β) : Parsed β :=
  match r with
  | ok value next =>
    if shorter : next.rest.length < c.rest.length then f value next shorter
    else Parse.unexpected next
  | fail error resume => fail error resume

theorem behind_eq_bind {f : α → Cursor → Parsed β}
    (shortens : ∀ {a next}, r = .ok a next → next.rest.length < c.rest.length) :
    r.behind c (fun a next _ => f a next) = r.bind f := by
  cases r with
  | ok a next => exact dif_pos (shortens rfl)
  | fail error resume => rfl

theorem behind_eq_ok {f : α → Cursor → Parsed β} {b : β} {next : Cursor}
    (read : r.behind c (fun a next _ => f a next) = .ok b next) :
    ∃ a mid, r = .ok a mid ∧ mid.rest.length < c.rest.length ∧ f a mid = .ok b next := by
  cases r with
  | fail error resume => cases read
  | ok a mid =>
    rw [Parsed.behind] at read
    split at read
    · next shorter => exact ⟨a, mid, rfl, shorter, read⟩
    · cases read

end Parsed

namespace Parse

def past {β : Type} (c : Cursor)
    (f : (next : Cursor) → next.rest.length < c.rest.length → Parsed β) : Parsed β :=
  Parsed.behind c (.ok () c.advance) fun _ next shorter => f next shorter

namespace Layers

def additive? : TokenKind → Option ArithOp
  | .plus => some .plus
  | .minus => some .minus
  | _ => none

def multiplicative? : TokenKind → Option ArithOp
  | .asterisk => some .times
  | .slash => some .dividedBy
  | _ => none

mutual

def sum (c : Cursor) : Parsed Expr :=
  (product c).behind c fun left c _ => sums left c
termination_by (c.rest.length, 2)

def sums (left : Expr) (c : Cursor) : Parsed Expr :=
  match additive? c.kind with
  | none => .ok left c
  | some op =>
    past c fun next _ => (product next).behind c fun right c _ => sums (.binary op left right) c
termination_by (c.rest.length, 0)

def product (c : Cursor) : Parsed Expr :=
  (atom c).behind c fun left c _ => products left c
termination_by (c.rest.length, 1)

def products (left : Expr) (c : Cursor) : Parsed Expr :=
  match multiplicative? c.kind with
  | none => .ok left c
  | some op =>
    past c fun next _ => (atom next).behind c fun right c _ => products (.binary op left right) c
termination_by (c.rest.length, 0)

/-- An atom: a sign before an atom, a sum in brackets or behind a word, a call, or one token. -/
def atom (c : Cursor) : Parsed Expr :=
  let t := c.peek
  match t.kind with
  | .number =>
    match Number.ofLiteral? t.literal with
    | some value => .ok (.number t.pos value) c.advance
    | none => .fail ⟨t, .invalidNumber⟩ c.advance
  | .paramName => .ok (.param t.pos (t.literal.drop 1)) c.advance
  | .varName => .ok (.var t.pos (t.literal.drop 1)) c.advance
  | .minus => past c fun next _ => (atom next).map (.negate t.pos)
  | .leftParen =>
    past c fun next _ =>
      (sum next).bind fun inner c => (expect .rightParen c).map fun _ => .group t.pos inner
  | .random => past c fun next _ => (sum next).map (.random t.pos)
  | .identifier => past c fun next _ => (called t.literal next).map (.call t.pos t.literal)
  | _ => unexpected c
termination_by (c.rest.length, 0)

def called (name : Name) (c : Cursor) : Parsed (List Expr) :=
  match c.arity? name with
  | some arity => exactly name arity c
  | none => freely c
termination_by (c.rest.length, 4)

def exactly (name : Name) (arity : Nat) (c : Cursor) : Parsed (List Expr) :=
  match arity with
  | 0 => .ok [] c
  | arity + 1 =>
    if startsArgument c.kind || c.kind == .identifier then
      (sum c).behind c fun arg c _ => (exactly name arity c).map (arg :: ·)
    else expected (.argument name) c
termination_by (c.rest.length, 3)

def freely (c : Cursor) : Parsed (List Expr) :=
  if startsArgument c.kind then
    (sum c).behind c fun arg c _ => (freely c).map (arg :: ·)
  else .ok [] c
termination_by (c.rest.length, 3)

end

/-! Every production uses up tokens, so the grammar can be read without the bounds on them. -/

variable {α β : Type} {c next : Cursor} {left e : Expr} {name : Name}

theorem advance_shortens (more : c.kind ≠ .eof) : c.advance.rest.length < c.rest.length := by
  obtain ⟨ts, ahead⟩ := Cursor.rest_of_kind more
  rw [Cursor.advance_rest ahead, ahead]
  simp

theorem past_eq {f : Cursor → Parsed β} (more : c.kind ≠ .eof) :
    past c (fun next _ => f next) = f c.advance :=
  dif_pos (advance_shortens more)

theorem additive_more {op : ArithOp} (found : additive? c.kind = some op) : c.kind ≠ .eof := by
  intro ended
  rw [ended] at found
  cases found

theorem multiplicative_more {op : ArithOp} (found : multiplicative? c.kind = some op) :
    c.kind ≠ .eof := by
  intro ended
  rw [ended] at found
  cases found

theorem products_le (read : products left c = .ok e next) :
    next.rest.length ≤ c.rest.length := by
  induction bound : c.rest.length using Nat.strongRecOn generalizing left c with
  | ind k ih =>
    rw [products] at read
    split at read
    · cases read
      omega
    · next op found =>
      rw [past_eq (multiplicative_more found)] at read
      obtain ⟨right, mid, -, shorter, rest⟩ := Parsed.behind_eq_ok read
      have tail := ih mid.rest.length (by omega) rest rfl
      omega

theorem sums_le (read : sums left c = .ok e next) : next.rest.length ≤ c.rest.length := by
  induction bound : c.rest.length using Nat.strongRecOn generalizing left c with
  | ind k ih =>
    rw [sums] at read
    split at read
    · cases read
      omega
    · next op found =>
      rw [past_eq (additive_more found)] at read
      obtain ⟨right, mid, -, shorter, rest⟩ := Parsed.behind_eq_ok read
      have tail := ih mid.rest.length (by omega) rest rfl
      omega

theorem product_shortens (read : product c = .ok e next) :
    next.rest.length < c.rest.length := by
  rw [product] at read
  obtain ⟨first, mid, -, shorter, rest⟩ := Parsed.behind_eq_ok read
  have tail := products_le rest
  omega

theorem sum_shortens (read : sum c = .ok e next) : next.rest.length < c.rest.length := by
  rw [sum] at read
  obtain ⟨first, mid, -, shorter, rest⟩ := Parsed.behind_eq_ok read
  have tail := sums_le rest
  omega

theorem exactly_le {arity : Nat} {es : List Expr} (read : exactly name arity c = .ok es next) :
    next.rest.length ≤ c.rest.length := by
  induction arity generalizing c es with
  | zero =>
    rw [exactly] at read
    cases read
    omega
  | succ arity ih =>
    rw [exactly] at read
    split at read
    · obtain ⟨first, mid, -, shorter, rest⟩ := Parsed.behind_eq_ok read
      obtain ⟨others, rest, -⟩ := Parsed.map_eq_ok rest
      have tail := ih rest
      omega
    · cases read

theorem freely_le {es : List Expr} (read : freely c = .ok es next) :
    next.rest.length ≤ c.rest.length := by
  induction bound : c.rest.length using Nat.strongRecOn generalizing c es with
  | ind k ih =>
    rw [freely] at read
    split at read
    · obtain ⟨first, mid, -, shorter, rest⟩ := Parsed.behind_eq_ok read
      obtain ⟨others, rest, -⟩ := Parsed.map_eq_ok rest
      have tail := ih mid.rest.length (by omega) rest rfl
      omega
    · cases read
      omega

theorem called_le {es : List Expr} (read : called name c = .ok es next) :
    next.rest.length ≤ c.rest.length := by
  rw [called] at read
  split at read
  · exact exactly_le read
  · exact freely_le read

theorem atom_eq (c : Cursor) : atom c =
    match c.peek.kind with
    | .number =>
      match Number.ofLiteral? c.peek.literal with
      | some value => .ok (.number c.peek.pos value) c.advance
      | none => .fail ⟨c.peek, .invalidNumber⟩ c.advance
    | .paramName => .ok (.param c.peek.pos (c.peek.literal.drop 1)) c.advance
    | .varName => .ok (.var c.peek.pos (c.peek.literal.drop 1)) c.advance
    | .minus => (atom c.advance).map (.negate c.peek.pos)
    | .leftParen =>
      (sum c.advance).bind fun inner c' =>
        (expect .rightParen c').map fun _ => .group c.peek.pos inner
    | .random => (sum c.advance).map (.random c.peek.pos)
    | .identifier =>
      (called c.peek.literal c.advance).map (.call c.peek.pos c.peek.literal)
    | _ => unexpected c := by
  have more {k : TokenKind} (same : c.peek.kind = k) (proper : k ≠ .eof) : c.kind ≠ .eof := by
    rw [Cursor.kind, same]
    exact proper
  rw [atom]
  split <;> rename_i same
  · rfl
  · rfl
  · rfl
  · exact past_eq (more same (by decide))
  · exact past_eq (more same (by decide))
  · exact past_eq (more same (by decide))
  · exact past_eq (more same (by decide))
  · rfl

theorem atom_shortens (read : atom c = .ok e next) : next.rest.length < c.rest.length := by
  induction bound : c.rest.length using Nat.strongRecOn generalizing c e with
  | ind k ih =>
    have one {k : TokenKind} (same : c.peek.kind = k) (proper : k ≠ .eof) :
        c.advance.rest.length < c.rest.length := by
      apply advance_shortens
      rw [Cursor.kind, same]
      exact proper
    rw [atom_eq] at read
    split at read <;> rename_i same
    · have token := one same (by decide)
      split at read
      · cases read
        omega
      · cases read
    · cases read
      have token := one same (by decide)
      omega
    · cases read
      have token := one same (by decide)
      omega
    · have token := one same (by decide)
      obtain ⟨inner, tail, -⟩ := Parsed.map_eq_ok read
      have shorter := ih c.advance.rest.length (by omega) tail rfl
      omega
    · have token := one same (by decide)
      obtain ⟨inner, mid, tail, closed⟩ := Parsed.bind_eq_ok read
      obtain ⟨bracket, last, -⟩ := Parsed.map_eq_ok closed
      obtain ⟨-, close, rfl⟩ := expect_reads last
      have shorter := sum_shortens tail
      have bracketed : mid.advance.rest.length ≤ mid.rest.length := by
        unfold Cursor.advance
        split <;> simp_all
      omega
    · have token := one same (by decide)
      obtain ⟨limit, tail, -⟩ := Parsed.map_eq_ok read
      have shorter := sum_shortens tail
      omega
    · have token := one same (by decide)
      obtain ⟨es, tail, -⟩ := Parsed.map_eq_ok read
      have shorter := called_le tail
      omega
    · cases read

theorem sum_eq (c : Cursor) : sum c = (product c).bind sums := by
  rw [sum]
  exact Parsed.behind_eq_bind product_shortens

theorem product_eq (c : Cursor) : product c = (atom c).bind products := by
  rw [product]
  exact Parsed.behind_eq_bind atom_shortens

theorem sums_eq (left : Expr) (c : Cursor) : sums left c =
    match additive? c.kind with
    | none => .ok left c
    | some op => (product c.advance).bind fun right c => sums (.binary op left right) c := by
  rw [sums]
  cases found : additive? c.kind with
  | none => rfl
  | some op =>
    dsimp only
    rw [past_eq (additive_more found)]
    apply Parsed.behind_eq_bind
    intro right next read
    exact Nat.lt_trans (product_shortens read) (advance_shortens (additive_more found))

theorem products_eq (left : Expr) (c : Cursor) : products left c =
    match multiplicative? c.kind with
    | none => .ok left c
    | some op => (atom c.advance).bind fun right c => products (.binary op left right) c := by
  rw [products]
  cases found : multiplicative? c.kind with
  | none => rfl
  | some op =>
    dsimp only
    rw [past_eq (multiplicative_more found)]
    apply Parsed.behind_eq_bind
    intro right next read
    exact Nat.lt_trans (atom_shortens read) (advance_shortens (multiplicative_more found))

theorem exactly_succ_eq (name : Name) (arity : Nat) (c : Cursor) : exactly name (arity + 1) c =
    if startsArgument c.kind || c.kind == .identifier then
      (sum c).bind fun arg c => (exactly name arity c).map (arg :: ·)
    else expected (.argument name) c := by
  rw [exactly, Parsed.behind_eq_bind sum_shortens]

theorem freely_eq (c : Cursor) : freely c =
    if startsArgument c.kind then (sum c).bind fun arg c => (freely c).map (arg :: ·)
    else .ok [] c := by
  rw [freely, Parsed.behind_eq_bind sum_shortens]

/-! Climbing the levels of the operators. -/

theorem products_stop (read : products left c = .ok e next) : multiplicative? next.kind = none := by
  induction bound : c.rest.length using Nat.strongRecOn generalizing left c with
  | ind k ih =>
    rw [products_eq] at read
    split at read
    · next stops =>
      cases read
      exact stops
    · next op found =>
      obtain ⟨right, mid, first, rest⟩ := Parsed.bind_eq_ok read
      have token := advance_shortens (multiplicative_more found)
      have shorter := atom_shortens first
      exact ih mid.rest.length (by omega) rest rfl

theorem product_stops (read : product c = .ok e next) : multiplicative? next.kind = none := by
  rw [product_eq] at read
  obtain ⟨first, mid, -, rest⟩ := Parsed.bind_eq_ok read
  exact products_stop rest

theorem operator_cases (k : TokenKind) :
    (ArithOp.ofKind? k = none ∧ additive? k = none ∧ multiplicative? k = none) ∨
    (∃ op, ArithOp.ofKind? k = some op ∧ levelOf op = .sum ∧ additive? k = some op ∧
      multiplicative? k = none) ∨
    ∃ op, ArithOp.ofKind? k = some op ∧ levelOf op = .product ∧ additive? k = none ∧
      multiplicative? k = some op := by
  cases k <;> simp [ArithOp.ofKind?, additive?, multiplicative?, levelOf]

/-- What climbing with some fuel comes to, if the fuel lasts for the tokens ahead. -/
structure Climbs (n : Nat) : Prop where
  lowest {c : Cursor} (lasts : 4 * c.rest.length ≤ n) : expr n .lowest c = sum c
  sum {c : Cursor} (lasts : 4 * c.rest.length ≤ n) : expr n .sum c = product c
  tight {level : Level} {c : Cursor} (tight : Level.product.rank ≤ level.rank)
    (lasts : 4 * c.rest.length ≤ n) : expr n level c = atom c
  summands {left : Expr} {c : Cursor} (lasts : 4 * c.rest.length < n) :
    operators n .lowest left c = (products left c).bind sums
  factors {left : Expr} {c : Cursor} (lasts : 4 * c.rest.length < n) :
    operators n .sum left c = products left c
  nothing {level : Level} {left : Expr} {c : Cursor} (tight : Level.product.rank ≤ level.rank)
    (fueled : 0 < n) : operators n level left c = .ok left c
  operand {c : Cursor} (lasts : 4 * c.rest.length ≤ n + 1) : operand n c = atom c
  arguments {name : Name} {c : Cursor} (lasts : 4 * c.rest.length + 2 ≤ n) :
    arguments n name c = called name c
  exactArguments {name : Name} {arity : Nat} {c : Cursor} (lasts : 4 * c.rest.length < n) :
    exactArguments n name arity c = exactly name arity c
  openArguments {c : Cursor} (lasts : 4 * c.rest.length < n) : openArguments n c = freely c

theorem atom_of_end (ended : c.rest = []) : atom c = unexpected c := by
  have last : c.peek.kind = .eof := by
    simp [Cursor.peek, ended]
  rw [atom_eq, last]

theorem climbs_zero : Climbs 0 := by
  have ended {c : Cursor} (lasts : 4 * c.rest.length ≤ 0 + 1) : atom c = unexpected c := by
    apply atom_of_end
    rw [← List.length_eq_zero_iff]
    omega
  constructor
  · intro c lasts
    rw [sum_eq, product_eq, ended (by omega)]
    rfl
  · intro c lasts
    rw [product_eq, ended (by omega)]
    rfl
  · intro level c tight lasts
    rw [ended (by omega)]
    rfl
  · intros
    omega
  · intros
    omega
  · intros
    omega
  · intro c lasts
    rw [ended lasts]
    rfl
  · intros
    omega
  · intros
    omega
  · intros
    omega

theorem nothing_succ (n : Nat) {level : Level} (tight : Level.product.rank ≤ level.rank) :
    operators (n + 1) level left c = .ok left c := by
  rw [operators]
  rcases operator_cases c.kind with
    ⟨no_operator, -, -⟩ | ⟨op, found, below, -, -⟩ | ⟨op, found, below, -, -⟩
  · rw [no_operator]
  · rw [found]
    simp only [below, Level.rank] at tight ⊢
    exact if_neg (by omega)
  · rw [found]
    simp only [below]
    exact if_neg (by omega)

section
variable {n : Nat} (ih : Climbs n)
include ih

theorem lowest_succ (lasts : 4 * c.rest.length ≤ n + 1) : expr (n + 1) .lowest c = sum c := by
  calc expr (n + 1) .lowest c
      = (atom c).bind fun left next => operators n .lowest left next := by
        rw [expr, ih.operand lasts]
    _ = (atom c).bind fun left next => (products left next).bind sums := by
        apply Parsed.bind_congr
        intro left next read
        have shorter := atom_shortens read
        exact ih.summands (by omega)
    _ = sum c := by
        rw [sum_eq, product_eq, Parsed.bind_bind]

theorem sum_succ (lasts : 4 * c.rest.length ≤ n + 1) : expr (n + 1) .sum c = product c := by
  rw [expr, ih.operand lasts, product_eq]
  apply Parsed.bind_congr
  intro left next read
  have shorter := atom_shortens read
  exact ih.factors (by omega)

theorem tight_succ {level : Level} (tight : Level.product.rank ≤ level.rank)
    (lasts : 4 * c.rest.length ≤ n + 1) : expr (n + 1) level c = atom c := by
  rw [expr, ih.operand lasts]
  cases read : atom c with
  | fail error resume => rfl
  | ok left next =>
    have shorter := atom_shortens read
    exact ih.nothing tight (by omega)

/-- Behind an operator that adds the climb goes on as a sum does, since it has read a product. -/
theorem summands_succ (lasts : 4 * c.rest.length < n + 1) :
    operators (n + 1) .lowest left c = (products left c).bind sums := by
  rw [operators, products_eq]
  rcases operator_cases c.kind with
    ⟨no_operator, no_sum, no_product⟩ | ⟨op, found, level, adds, no_product⟩ |
      ⟨op, found, level, no_sum, multiplies⟩
  · rw [no_operator, no_product]
    simp only [Parsed.bind]
    rw [sums_eq, no_sum]
  · have token := advance_shortens (additive_more adds)
    rw [found, no_product]
    dsimp only
    rw [level, if_pos (by decide), ih.sum (by omega)]
    calc (product c.advance).bind (fun right next =>
          operators n .lowest (.binary op left right) next)
        = (product c.advance).bind fun right next => sums (.binary op left right) next := by
          apply Parsed.bind_congr
          intro right next read
          have shorter := product_shortens read
          rw [ih.summands (by omega), products_eq, product_stops read]
          rfl
      _ = (Parsed.ok left c).bind sums := by
          rw [Parsed.bind, sums_eq, adds]
  · have token := advance_shortens (multiplicative_more multiplies)
    rw [found, multiplies]
    dsimp only
    rw [level, if_pos (by decide), ih.tight (Nat.le_refl _) (by omega), Parsed.bind_bind]
    apply Parsed.bind_congr
    intro right next read
    have shorter := atom_shortens read
    exact ih.summands (by omega)

theorem factors_succ (lasts : 4 * c.rest.length < n + 1) :
    operators (n + 1) .sum left c = products left c := by
  rw [operators, products_eq]
  rcases operator_cases c.kind with
    ⟨no_operator, -, no_product⟩ | ⟨op, found, level, -, no_product⟩ |
      ⟨op, found, level, -, multiplies⟩
  · rw [no_operator, no_product]
  · rw [found, no_product]
    simp [level]
  · have token := advance_shortens (multiplicative_more multiplies)
    rw [found, multiplies]
    dsimp only
    rw [level, if_pos (by decide), ih.tight (Nat.le_refl _) (by omega)]
    apply Parsed.bind_congr
    intro right next read
    have shorter := atom_shortens read
    exact ih.factors (by omega)

theorem operand_succ (lasts : 4 * c.rest.length ≤ n + 2) : operand (n + 1) c = atom c := by
  have behind {k : TokenKind} (same : c.peek.kind = k) (proper : k ≠ .eof) :
      4 * c.advance.rest.length + 2 ≤ n := by
    have token := advance_shortens (c := c) (by rw [Cursor.kind, same]; exact proper)
    omega
  have grammar := atom_eq c
  rw [operand]
  split <;> rename_i same
  · rw [same] at grammar
    exact grammar.symm
  · rw [same] at grammar
    exact grammar.symm
  · rw [same] at grammar
    exact grammar.symm
  · have lasts := behind same (by decide)
    rw [same] at grammar
    rw [ih.tight (by decide) (by omega)]
    exact grammar.symm
  · have lasts := behind same (by decide)
    rw [same] at grammar
    rw [ih.lowest (by omega)]
    exact grammar.symm
  · have lasts := behind same (by decide)
    rw [same] at grammar
    rw [ih.lowest (by omega)]
    exact grammar.symm
  · have lasts := behind same (by decide)
    rw [same] at grammar
    rw [ih.arguments lasts]
    exact grammar.symm
  · split at grammar
    all_goals first | contradiction | exact grammar.symm

theorem arguments_succ (lasts : 4 * c.rest.length + 2 ≤ n + 1) :
    arguments (n + 1) name c = called name c := by
  rw [arguments, called]
  cases c.arity? name with
  | some arity => exact ih.exactArguments (by omega)
  | none => exact ih.openArguments (by omega)

theorem exactArguments_succ {arity : Nat} (lasts : 4 * c.rest.length < n + 1) :
    exactArguments (n + 1) name arity c = exactly name arity c := by
  cases arity with
  | zero => rw [exactArguments, exactly]
  | succ arity =>
    rw [exactArguments, exactly_succ_eq, ih.lowest (by omega)]
    split
    · apply Parsed.bind_congr
      intro arg next read
      have shorter := sum_shortens read
      rw [ih.exactArguments (by omega)]
    · rfl

theorem openArguments_succ (lasts : 4 * c.rest.length < n + 1) :
    openArguments (n + 1) c = freely c := by
  rw [openArguments, freely_eq, ih.lowest (by omega)]
  split
  · apply Parsed.bind_congr
    intro arg next read
    have shorter := sum_shortens read
    rw [ih.openArguments (by omega)]
  · rfl

end

theorem climbs (n : Nat) : Climbs n := by
  induction n with
  | zero => exact climbs_zero
  | succ n ih =>
    exact ⟨lowest_succ ih, sum_succ ih, tight_succ ih, summands_succ ih, factors_succ ih,
      fun tight _ => nothing_succ n tight, operand_succ ih, arguments_succ ih,
      exactArguments_succ ih, openArguments_succ ih⟩

end Layers

/-- Whatever the tokens are, the place among them and the procedures known there, climbing the
    levels of the operators reads as the layers of the grammar do: the same expression up to the
    same place or the same error at the same token. Above the lowest level it reads a sum, above
    that of sums a product and above that of products or of a sign an atom. -/
theorem climbing_reads_layers (c : Cursor) :
    expression c = Layers.sum c ∧
      ∀ n, 4 * c.rest.length ≤ n →
        expr n .lowest c = Layers.sum c ∧ expr n .sum c = Layers.product c ∧
          expr n .product c = Layers.atom c ∧ expr n .sign c = Layers.atom c := by
  constructor
  · apply (Layers.climbs c.fuel).lowest
    rw [Cursor.fuel]
    omega
  · intro n lasts
    have climbs := Layers.climbs n
    exact ⟨climbs.lowest lasts, climbs.sum lasts, climbs.tight (by decide) lasts,
      climbs.tight (by decide) lasts⟩

def randomFactor : Cursor where
  rest :=
    [⟨.paramName, utf8 ":a", ⟨0, 1, 1⟩⟩, ⟨.asterisk, utf8 "*", ⟨3, 1, 4⟩⟩,
      ⟨.random, utf8 "random", ⟨5, 1, 6⟩⟩, ⟨.paramName, utf8 ":b", ⟨12, 1, 13⟩⟩,
      ⟨.plus, utf8 "+", ⟨15, 1, 16⟩⟩, ⟨.paramName, utf8 ":c", ⟨17, 1, 18⟩⟩]
  finish := ⟨19, 1, 20⟩
  opened := []
  arities := []

theorem climbing_reads_layers_of_random :
    ∃ factor whole : Expr, ∃ next : Cursor, next.rest = [] ∧
      factor = .param ⟨0, 1, 1⟩ (utf8 "a") ∧
      whole = .binary .times factor
        (.random ⟨5, 1, 6⟩ (.binary .plus (.param ⟨12, 1, 13⟩ (utf8 "b"))
          (.param ⟨17, 1, 18⟩ (utf8 "c")))) ∧
      Layers.sum randomFactor = .ok whole next ∧ Layers.product randomFactor = .ok whole next ∧
      Layers.atom randomFactor = .ok factor randomFactor.advance := by
  obtain ⟨whole, levels⟩ := climbing_reads_layers randomFactor
  obtain ⟨-, product, atom, -⟩ := levels 24 (by decide)
  refine ⟨_, _, ⟨[], ⟨19, 1, 20⟩, [], []⟩, rfl, rfl, rfl, ?_, ?_, ?_⟩
  · exact whole.symm.trans rfl
  · exact product.symm.trans rfl
  · exact atom.symm.trans rfl

end Parse
end TurtleLogo
