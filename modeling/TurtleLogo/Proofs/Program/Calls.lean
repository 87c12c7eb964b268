import TurtleLogo.Lint
import TurtleLogo.Proofs.Program.Printer

/-!
The calls of a program and the headers that they follow. Read in source order, a program is a list
of landmarks: the headers of its definitions and its calls, at any depth. Which headers a call
follows can be told from the list and from the places in it, and both agree where the places
increase.
-/
namespace TurtleLogo

structure Call where
  pos : Position
  name : Name
  args : List Expr

def Call.lexemes (c : Call) : List Lexeme :=
  ⟨.identifier, .text c.name, some c.pos⟩ :: lexemesOfArgs c.args

mutual

def Expr.calls : Expr → List Call
  | .number .. | .param .. | .var .. => []
  | .negate _ e | .group _ e | .random _ e => e.calls
  | .binary _ left right => left.calls ++ right.calls
  | .call pos name args => ⟨pos, name, args⟩ :: callsOfArgs args

def callsOfArgs : List Expr → List Call
  | [] => []
  | e :: rest => e.calls ++ callsOfArgs rest

end

inductive Landmark where
  | header (d : Definition)
  | call (c : Call)

namespace Landmark

def pos : Landmark → Position
  | header d => d.pos
  | call c => c.pos

def header? : Landmark → Option Definition
  | header d => some d
  | call _ => none

end Landmark

def Expr.landmarks (e : Expr) : List Landmark := e.calls.map .call

mutual

def Stmt.landmarks : Stmt → List Landmark
  | .define pos name namePos params body =>
    .header ⟨name, params, pos, namePos⟩ :: landmarksOf body
  | .loop _ count body => count.landmarks ++ landmarksOf body
  | .test _ left _ right body => left.landmarks ++ (right.landmarks ++ landmarksOf body)
  | .call pos name args => .call ⟨pos, name, args⟩ :: (callsOfArgs args).map .call
  | .make _ _ e | .loopCall _ e _ | .move _ _ e | .turn _ _ e | .setHeading _ e | .output _ e =>
    e.landmarks
  | .setXY _ x y => x.landmarks ++ y.landmarks
  | .pen .. | .home _ | .stop _ => []

/-- The headers and calls of statements, those within blocks and bodies included. -/
def landmarksOf : List Stmt → List Landmark
  | [] => []
  | s :: rest => s.landmarks ++ landmarksOf rest

end

def learned (known : Arities) (marks : List Landmark) : Arities :=
  ((marks.filterMap Landmark.header?).map fun d => (d.name, d.params.length)).reverse ++ known

theorem learned_append (known : Arities) (front back : List Landmark) :
    learned known (front ++ back) = learned (learned known front) back := by
  simp [learned]

theorem learned_header (known : Arities) (d : Definition) (rest : List Landmark) :
    learned known (.header d :: rest) = learned ((d.name, d.params.length) :: known) rest := by
  simp [learned, Landmark.header?]

theorem headers_of_calls (calls : List Call) :
    (calls.map Landmark.call).filterMap Landmark.header? = [] := by
  rw [List.filterMap_map]
  exact List.filterMap_eq_nil_iff.mpr fun _ _ => rfl

theorem learned_calls (known : Arities) (calls : List Call) :
    learned known (calls.map .call) = known := by
  rw [learned, headers_of_calls]
  rfl

theorem learned_expr (known : Arities) (e : Expr) : learned known e.landmarks = known :=
  learned_calls known e.calls

mutual

theorem learned_stmt (known : Arities) : ∀ s : Stmt,
    learned known s.landmarks = s.declared known
  | .define _ name _ params body => by
    rw [Stmt.landmarks, learned_header, learned_stmts _ body]
    rfl
  | .loop _ count body => by
    rw [Stmt.landmarks, learned_append, learned_expr, learned_stmts known body]
    rfl
  | .test _ left _ right body => by
    rw [Stmt.landmarks, learned_append, learned_append, learned_expr, learned_expr,
      learned_stmts known body]
    rfl
  | .call pos name args => learned_calls known (⟨pos, name, args⟩ :: callsOfArgs args)
  | .setXY _ x y => by
    rw [Stmt.landmarks, learned_append, learned_expr, learned_expr]
    rfl
  | .make _ _ e | .loopCall _ e _ | .move _ _ e | .turn _ _ e | .setHeading _ e | .output _ e =>
    learned_expr known e
  | .pen .. | .home _ | .stop _ => rfl

theorem learned_stmts (known : Arities) : ∀ ss : List Stmt,
    learned known (landmarksOf ss) = declaredBy known ss
  | [] => rfl
  | s :: rest => by
    rw [landmarksOf, learned_append, learned_stmt known s, learned_stmts _ rest, declaredBy]

end

theorem headers_of_expr (e : Expr) : e.landmarks.filterMap Landmark.header? = [] :=
  headers_of_calls e.calls

mutual

theorem headers_of_stmt : ∀ s : Stmt, s.landmarks.filterMap Landmark.header? = s.definitions
  | .define _ _ _ _ body => by
    rw [Stmt.landmarks, List.filterMap_cons, headers_of_stmts body]
    rfl
  | .loop _ count body => by
    rw [Stmt.landmarks, List.filterMap_append, headers_of_expr, headers_of_stmts body]
    rfl
  | .test _ left _ right body => by
    rw [Stmt.landmarks, List.filterMap_append, List.filterMap_append, headers_of_expr,
      headers_of_expr, headers_of_stmts body]
    rfl
  | .call pos name args => headers_of_calls (⟨pos, name, args⟩ :: callsOfArgs args)
  | .setXY _ x y => by
    rw [Stmt.landmarks, List.filterMap_append, headers_of_expr, headers_of_expr]
    rfl
  | .make _ _ e | .loopCall _ e _ | .move _ _ e | .turn _ _ e | .setHeading _ e | .output _ e =>
    headers_of_expr e
  | .pen .. | .home _ | .stop _ => rfl

theorem headers_of_stmts : ∀ ss : List Stmt,
    (landmarksOf ss).filterMap Landmark.header? = definitionsOf ss
  | [] => rfl
  | s :: rest => by
    rw [landmarksOf, List.filterMap_append, headers_of_stmt s, headers_of_stmts rest,
      definitionsOf]

end

mutual

theorem expr_calls_placed : ∀ e : Expr, (e.calls.map Call.pos).Sublist (placed e.lexemes)
  | .number .. | .param .. | .var .. => List.nil_sublist _
  | .negate _ e | .random _ e => .cons _ (expr_calls_placed e)
  | .group pos e => by
    rw [Expr.lexemes, placed_opening, placed_append]
    exact .cons _ ((expr_calls_placed e).trans (List.sublist_append_left _ _))
  | .binary _ left right => by
    rw [Expr.calls, Expr.lexemes, List.map_append, placed_append, placed_inner]
    exact (expr_calls_placed left).append (expr_calls_placed right)
  | .call pos _ args => .cons_cons pos (args_calls_placed args)

theorem args_calls_placed : ∀ es : List Expr,
    ((callsOfArgs es).map Call.pos).Sublist (placed (lexemesOfArgs es))
  | [] => .slnil
  | e :: rest => by
    rw [callsOfArgs, lexemesOfArgs, List.map_append, placed_append]
    exact (expr_calls_placed e).append (args_calls_placed rest)

end

theorem landmarks_of_calls_pos (calls : List Call) :
    (calls.map Landmark.call).map Landmark.pos = calls.map Call.pos := by
  rw [List.map_map]
  rfl

theorem expr_landmarks_placed (e : Expr) :
    (e.landmarks.map Landmark.pos).Sublist (placed e.lexemes) := by
  rw [Expr.landmarks, landmarks_of_calls_pos]
  exact expr_calls_placed e

mutual

theorem stmt_landmarks_placed : ∀ s : Stmt,
    (s.landmarks.map Landmark.pos).Sublist (placed s.lexemes)
  | .define pos _ _ params body => by
    have block := (block_landmarks_placed body .endDefine).trans (List.sublist_append_right
      (placed (params.map (⟨.paramName, .sigiled ·, none⟩))) _)
    rw [← placed_append] at block
    exact .cons_cons pos (.cons _ block)
  | .loop _ count body => by
    rw [Stmt.landmarks, Stmt.lexemes, placed_opening, placed_append, placed_inner, List.map_append]
    exact .cons _ ((expr_landmarks_placed count).append (block_landmarks_placed body .rightBracket))
  | .loopCall _ count _ => by
    rw [Stmt.landmarks, Stmt.lexemes, placed_opening, placed_append]
    exact .cons _ ((expr_landmarks_placed count).trans (List.sublist_append_left _ _))
  | .test _ left _ right body => by
    rw [Stmt.landmarks, Stmt.lexemes, placed_opening, placed_append, placed_inner, placed_append,
      placed_inner, List.map_append, List.map_append]
    exact .cons _ ((expr_landmarks_placed left).append
      ((expr_landmarks_placed right).append (block_landmarks_placed body .rightBracket)))
  | .make _ _ e => .cons _ (expr_landmarks_placed e)
  | .move _ _ e | .turn _ _ e | .setHeading _ e | .output _ e => .cons _ (expr_landmarks_placed e)
  | .setXY _ x y => by
    rw [Stmt.landmarks, Stmt.lexemes, placed_opening, placed_append, List.map_append]
    exact .cons _ ((expr_landmarks_placed x).append (expr_landmarks_placed y))
  | .call pos _ args => by
    rw [Stmt.landmarks, List.map_cons, landmarks_of_calls_pos]
    exact .cons_cons pos (args_calls_placed args)
  | .pen .. | .home _ | .stop _ => List.nil_sublist _

theorem landmarks_placed : ∀ ss : List Stmt,
    ((landmarksOf ss).map Landmark.pos).Sublist (placed (lexemesOf ss))
  | [] => .slnil
  | s :: rest => by
    rw [landmarksOf, lexemesOf, List.map_append, placed_append]
    exact (stmt_landmarks_placed s).append (landmarks_placed rest)

theorem block_landmarks_placed (body : List Stmt) (close : TokenKind) :
    ((landmarksOf body).map Landmark.pos).Sublist (placed (lexemesOf body ++ [.inner close])) := by
  rw [placed_append]
  exact (landmarks_placed body).trans (List.sublist_append_left _ _)

end

theorem mem_headers {marks : List Landmark} {d : Definition} :
    d ∈ marks.filterMap Landmark.header? ↔ .header d ∈ marks := by
  rw [List.mem_filterMap]
  constructor
  · rintro ⟨mark, member, found⟩
    cases mark with
    | header e => exact Option.some.inj found ▸ member
    | call c => cases found
  · intro member
    exact ⟨.header d, member, rfl⟩

/-- The last header of the call's name in front of the call. -/
structure Call.Follows (c : Call) (d : Definition) (definitions : List Definition) : Prop where
  listed : d ∈ definitions
  named : d.name = c.name
  before : d.pos.offset < c.pos.offset
  last : ∀ e ∈ definitions, e.name = c.name → e.pos.offset < c.pos.offset →
    e.pos.offset ≤ d.pos.offset

/-- No header of the call's name is in front of the call. -/
def Call.Leads (c : Call) (definitions : List Definition) : Prop :=
  ∀ d ∈ definitions, d.name = c.name → c.pos.offset ≤ d.pos.offset

theorem lookup_learned {known : Arities} {marks : List Landmark} {name : Name}
    (other : ∀ d, .header d ∈ marks → d.name ≠ name) :
    (learned known marks).lookup name = known.lookup name := by
  have absent : (((marks.filterMap Landmark.header?).map
      fun d => (d.name, d.params.length)).reverse).lookup name = none := by
    rw [List.lookup_eq_none_iff]
    intro entry member
    obtain ⟨d, listed, rfl⟩ := List.mem_map.mp (List.mem_reverse.mp member)
    exact bne_iff_ne.mpr fun same => other d (mem_headers.mp listed) same.symm
  rw [learned, List.lookup_append, absent, Option.none_or]

section
variable {front back : List Landmark} {c : Call}
  (increasing : ((front ++ .call c :: back).map Landmark.pos).Pairwise (·.offset < ·.offset))
include increasing

theorem header_in_front {d : Definition} (listed : .header d ∈ front ++ .call c :: back)
    (before : d.pos.offset < c.pos.offset) : .header d ∈ front := by
  rcases List.mem_append.mp listed with inside | behind
  · exact inside
  · rw [List.map_append, List.pairwise_append, List.map_cons, List.pairwise_cons] at increasing
    rcases List.mem_cons.mp behind with same | later
    · cases same
    · have after := increasing.2.1.1 _ (List.mem_map_of_mem later)
      exact absurd before (Nat.lt_asymm after)

theorem front_before {d : Definition} (inside : .header d ∈ front) :
    d.pos.offset < c.pos.offset := by
  rw [List.map_append, List.pairwise_append] at increasing
  exact increasing.2.2 _ (List.mem_map_of_mem inside) _ List.mem_cons_self

theorem lookup_of_follows {d : Definition}
    (follows : c.Follows d ((front ++ .call c :: back).filterMap Landmark.header?)) :
    (learned [] front).lookup c.name = some d.params.length := by
  have inside := header_in_front increasing (mem_headers.mp follows.listed) follows.before
  obtain ⟨earlier, later, rfl⟩ := List.append_of_mem inside
  rw [learned_append, learned_header, lookup_learned, follows.named, List.lookup_cons_self]
  intro e member named
  have listed : .header e ∈ earlier ++ .header d :: later :=
    List.mem_append_right _ (List.mem_cons_of_mem _ member)
  have bound := follows.last e (mem_headers.mpr (List.mem_append_left _ listed)) named
    (front_before increasing listed)
  -- the header stands behind the last one
  rw [List.append_assoc, List.cons_append, List.map_append, List.pairwise_append, List.map_cons,
    List.pairwise_cons] at increasing
  have after := increasing.2.1.1 _ (List.mem_map_of_mem (List.mem_append_left _ member))
  exact absurd after (Nat.not_lt.mpr bound)

theorem lookup_of_leads
    (leads : c.Leads ((front ++ .call c :: back).filterMap Landmark.header?)) :
    (learned [] front).lookup c.name = none := by
  refine lookup_learned fun d inside named => ?_
  have later := leads d (mem_headers.mpr (List.mem_append_left _ inside)) named
  exact absurd (front_before increasing inside) (Nat.not_lt.mpr later)

end
end TurtleLogo
