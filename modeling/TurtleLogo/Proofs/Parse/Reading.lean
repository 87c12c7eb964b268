import Mathlib.Data.List.Forall2
import TurtleLogo.Parse
import TurtleLogo.Proofs.Program.Lexemes

/-!
What reading does to a cursor. `Cursor.Reads` says that a cursor was moved past tokens that fit
a list of lexemes; reading a procedure header may note its arity on the way. The productions
of the grammar read exactly the lexemes of the node they return.
-/
namespace TurtleLogo

namespace Parsed

theorem bind_eq_ok {α β : Type} {r : Parsed α} {f : α → Cursor → Parsed β} {b : β} {next : Cursor}
    (h : r.bind f = .ok b next) : ∃ a c, r = .ok a c ∧ f a c = .ok b next := by
  cases r with
  | ok a c => exact ⟨a, c, rfl, h⟩
  | fail error resume => simp [bind] at h

theorem map_eq_ok {α β : Type} {r : Parsed α} {f : α → β} {b : β} {next : Cursor}
    (h : r.map f = .ok b next) : ∃ a, r = .ok a next ∧ f a = b := by
  cases r with
  | ok a c =>
    simp only [map, ok.injEq] at h
    exact ⟨a, by rw [h.2], h.1⟩
  | fail error resume => simp [map] at h

end Parsed

namespace Cursor

inductive Reads : Cursor → List Lexeme → Cursor → Prop where
  | nil (c : Cursor) : Reads c [] c
  | cons {c next : Cursor} {t : Token} {ts : List Token} {x : Lexeme} {xs : List Lexeme}
      (ahead : c.rest = t :: ts) (fits : x.Fits t) (tail : Reads c.advance xs next) :
      Reads c (x :: xs) next
  | header {c next : Cursor} {xs : List Lexeme} (name : Name) (arity : Nat)
      (tail : Reads (c.declare name arity) xs next) : Reads c xs next

theorem Reads.append {c d e : Cursor} {xs ys : List Lexeme} (first : Reads c xs d)
    (second : Reads d ys e) : Reads c (xs ++ ys) e := by
  induction first with
  | nil => exact second
  | cons ahead fits _ ih => exact .cons ahead fits (ih second)
  | header name arity _ ih => exact .header name arity (ih second)

theorem advance_rest {c : Cursor} {t : Token} {ts : List Token} (ahead : c.rest = t :: ts) :
    c.advance.rest = ts := by
  simp [advance, ahead]

theorem Reads.tokens {c next : Cursor} {xs : List Lexeme} (r : Reads c xs next) :
    ∃ used, c.rest = used ++ next.rest ∧ List.Forall₂ Lexeme.Fits xs used := by
  induction r with
  | nil => exact ⟨[], rfl, .nil⟩
  | @cons c next t ts x xs ahead fits _ ih =>
    obtain ⟨used, rest, all⟩ := ih
    rw [advance_rest ahead] at rest
    exact ⟨t :: used, by rw [ahead, rest, List.cons_append], .cons fits all⟩
  | header _ _ _ ih => exact ih

theorem peek_of_rest {c : Cursor} {t : Token} {ts : List Token} (ahead : c.rest = t :: ts) :
    c.peek = t := by
  simp [peek, ahead]

theorem rest_of_kind {c : Cursor} (more : c.kind ≠ .eof) : ∃ ts, c.rest = c.peek :: ts := by
  cases rest : c.rest with
  | nil => simp [kind, peek, rest] at more
  | cons t ts => exact ⟨ts, by rw [peek_of_rest rest]⟩

theorem Reads.one {c next : Cursor} {x : Lexeme} {xs : List Lexeme} (more : x.kind ≠ .eof)
    (fits : x.Fits c.peek) (tail : Reads c.advance xs next) : Reads c (x :: xs) next := by
  obtain ⟨ts, ahead⟩ := rest_of_kind (c := c) (by rw [kind, fits.1.1]; exact more)
  exact .cons ahead fits tail

end Cursor

namespace Lexeme

theorem opening_fits {k : TokenKind} {t : Token} (same : t.kind = k) : (opening k t.pos).Fits t :=
  ⟨⟨same, trivial⟩, fun _ at_ => by simpa [opening] using at_⟩

theorem inner_fits {k : TokenKind} {t : Token} (same : t.kind = k) : (inner k).Fits t :=
  ⟨⟨same, trivial⟩, fun _ at_ => by simp [inner] at at_⟩

end Lexeme

theorem placed_of_fits {xs : List Lexeme} {ts : List Token}
    (fits : List.Forall₂ Lexeme.Fits xs ts) : (placed xs).Sublist (ts.map Token.pos) := by
  induction fits with
  | nil => exact .slnil
  | @cons x t xs ts first _ ih =>
    rw [placed, List.filterMap_cons]
    cases at_ : x.pos with
    | none => exact .cons _ ih
    | some pos =>
      rw [List.map_cons, first.2 pos at_]
      exact .cons_cons pos ih

theorem arithOp_kind_of_ofKind {k : TokenKind} {op : ArithOp} (h : ArithOp.ofKind? k = some op) :
    op.kind = k := by
  cases k <;> simp [ArithOp.ofKind?] at h <;> subst h <;> rfl

theorem comparison_kind_of_ofKind {k : TokenKind} {op : Comparison}
    (h : Comparison.ofKind? k = some op) : op.kind = k := by
  cases k <;> simp [Comparison.ofKind?] at h <;> subst h <;> rfl

end TurtleLogo
