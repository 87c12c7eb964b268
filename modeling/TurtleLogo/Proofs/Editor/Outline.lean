import TurtleLogo.Proofs.Editor.Words

/-!
The symbols of a document. They are collected in one pass that hands on the variables listed so far,
goes through blocks and makes the body of a definition a level of its own. What comes out is told
from the program alone: a function for each definition, nested as the definitions are, and a
variable for the first of the assignments outside all definitions that have its name.
-/
namespace TurtleLogo

structure Assignment where
  name : Name
  pos : Position

def Stmt.assignment? : Stmt → Option Assignment
  | .make pos name _ => some ⟨name, pos⟩
  | _ => none

theorem assignment_pos {s : Stmt} {a : Assignment} (assigns : s.assignment? = some a) :
    a.pos = s.pos := by
  cases s <;> cases assigns
  rfl

def Stmt.definition? : Stmt → Option (Definition × List Stmt)
  | .define pos name namePos params body => some (⟨name, params, pos, namePos⟩, body)
  | _ => none

def assignmentsIn (ss : List Stmt) : List Assignment := (statementsIn ss).filterMap Stmt.assignment?

def definitionsIn (ss : List Stmt) : List (Definition × List Stmt) :=
  (statementsIn ss).filterMap Stmt.definition?

def firstsFrom (seen : List Name) : List Assignment → List Assignment
  | [] => []
  | a :: rest =>
    if seen.contains a.name then firstsFrom seen rest else a :: firstsFrom (a.name :: seen) rest

def seenBehind (seen : List Name) : List Assignment → List Name
  | [] => seen
  | a :: rest =>
    if seen.contains a.name then seenBehind seen rest else seenBehind (a.name :: seen) rest

theorem seenBehind_append (seen : List Name) (xs ys : List Assignment) :
    seenBehind seen (xs ++ ys) = seenBehind (seenBehind seen xs) ys := by
  induction xs generalizing seen with
  | nil => rfl
  | cons a xs ih =>
    rw [List.cons_append, seenBehind, seenBehind]
    split
    · exact ih seen
    · exact ih (a.name :: seen)

theorem firstsFrom_append (seen : List Name) (xs ys : List Assignment) :
    firstsFrom seen (xs ++ ys) = firstsFrom seen xs ++ firstsFrom (seenBehind seen xs) ys := by
  induction xs generalizing seen with
  | nil => rfl
  | cons a xs ih =>
    rw [List.cons_append, firstsFrom, firstsFrom, seenBehind]
    split
    · exact ih seen
    · rw [ih, List.cons_append]

theorem firstsFrom_sublist (seen : List Name) (xs : List Assignment) :
    (firstsFrom seen xs).Sublist xs := by
  induction xs generalizing seen with
  | nil => exact .slnil
  | cons a xs ih =>
    rw [firstsFrom]
    split
    · exact .cons a (ih seen)
    · exact .cons_cons a (ih _)

theorem firstsFrom_unseen {seen : List Name} {xs : List Assignment} {a : Assignment}
    (member : a ∈ firstsFrom seen xs) : a.name ∉ seen := by
  induction xs generalizing seen with
  | nil => exact absurd member List.not_mem_nil
  | cons b xs ih =>
    rw [firstsFrom] at member
    split at member
    · exact ih member
    · rename_i fresh
      rcases List.mem_cons.mp member with rfl | later
      · simpa using fresh
      · exact fun old => ih later (List.mem_cons_of_mem _ old)

theorem firstsFrom_distinct (seen : List Name) (xs : List Assignment) :
    ((firstsFrom seen xs).map Assignment.name).Nodup := by
  induction xs generalizing seen with
  | nil => exact .nil
  | cons a xs ih =>
    rw [firstsFrom]
    split
    · exact ih seen
    · refine List.nodup_cons.mpr ⟨fun again => ?_, ih _⟩
      obtain ⟨b, member, same⟩ := List.mem_map.mp again
      exact firstsFrom_unseen member (same ▸ List.mem_cons_self)

theorem firstsFrom_first {seen : List Name} {xs : List Assignment} {a : Assignment}
    (member : a ∈ firstsFrom seen xs) : xs.find? (·.name == a.name) = some a := by
  induction xs generalizing seen with
  | nil => exact absurd member List.not_mem_nil
  | cons b xs ih =>
    have unseen := firstsFrom_unseen member
    rw [firstsFrom] at member
    split at member
    · rename_i old
      have other : (b.name == a.name) = false := by
        refine beq_false_of_ne fun same => unseen ?_
        rw [← same]
        exact List.contains_iff_mem.mp old
      rw [List.find?_cons, other]
      exact ih member
    · rcases List.mem_cons.mp member with rfl | later
      · exact List.find?_cons_of_pos (beq_self_eq_true _)
      · have other : (b.name == a.name) = false :=
          beq_false_of_ne fun same => firstsFrom_unseen later (same ▸ List.mem_cons_self)
        rw [List.find?_cons, other]
        exact ih later

theorem firstsFrom_covers {seen : List Name} {xs : List Assignment} {a : Assignment}
    (member : a ∈ xs) : a.name ∈ seen ∨ ∃ b ∈ firstsFrom seen xs, b.name = a.name := by
  induction xs generalizing seen with
  | nil => exact absurd member List.not_mem_nil
  | cons b xs ih =>
    rw [firstsFrom]
    split
    · rename_i old
      rcases List.mem_cons.mp member with rfl | later
      · exact .inl (List.contains_iff_mem.mp old)
      · exact ih later
    · rcases List.mem_cons.mp member with rfl | later
      · exact .inr ⟨a, List.mem_cons_self, rfl⟩
      · have behind : a.name ∈ b.name :: seen ∨
            ∃ c ∈ firstsFrom (b.name :: seen) xs, c.name = a.name := ih later
        rcases behind with old | ⟨c, listed, same⟩
        · rcases List.mem_cons.mp old with same | older
          · exact .inr ⟨b, List.mem_cons_self, same.symm⟩
          · exact .inl older
        · exact .inr ⟨c, List.mem_cons_of_mem _ listed, same⟩

theorem firstsFrom_firstOfEach (xs : List Assignment) :
    FirstOfEach Assignment.name xs (firstsFrom [] xs) where
  sublist := firstsFrom_sublist [] xs
  distinct := firstsFrom_distinct [] xs
  first _ member := firstsFrom_first member
  covers _ member := (firstsFrom_covers member).resolve_left List.not_mem_nil

namespace Editor
open Text

def Place.UpTo (a b : Place) : Prop := a.line < b.line ∨ a.line = b.line ∧ a.character ≤ b.character

def Range.Encloses (outer inner : Range) : Prop :=
  outer.start.UpTo inner.start ∧ inner.stop.UpTo outer.stop

namespace Symbol

def isFunction : Symbol → Bool
  | function .. => true
  | global .. => false

def range : Symbol → Range
  | function _ _ range _ _ => range
  | global _ range => range

end Symbol

namespace Document
variable (d : Document)

def functionOf (q : Definition) (children : List Symbol) : Symbol :=
  let selection := d.span q.namePos (runeCount q.name)
  .function q.name (signature q.name q.params) ⟨d.place q.pos, selection.stop⟩ selection children

def globalOf (a : Assignment) : Symbol := .global (doubleQuote :: a.name) (d.span a.pos 4)

structure Lists (q : Definition) (y : Symbol) : Prop where
  listed : ∃ children, y = d.functionOf q children
  encloses : y.range.Encloses y.selection

/-- One symbol for each definition, and below it those of the definitions in its body. -/
inductive Nests : List (Definition × List Stmt) → List Symbol → Prop
  | nil : Nests [] []
  | cons {q : Definition} {body : List Stmt} {others : List (Definition × List Stmt)}
      {children ys : List Symbol} : Nests (definitionsIn body) children → Nests others ys →
      Nests ((q, body) :: others) (d.functionOf q children :: ys)

/-- The symbols of statements, as the statements have them. -/
structure Outlines (ss : List Stmt) (ys : List Symbol) : Prop where
  functions : List.Forall₂ d.Lists (definitionsOf ss) ((allNested ys).filter Symbol.isFunction)
  nesting : d.Nests (definitionsIn ss) (ys.filter Symbol.isFunction)
  globals : ∃ firsts, FirstOfEach Assignment.name (assignmentsIn ss) firsts ∧
    ys.filter (!·.isFunction) = firsts.map d.globalOf ∧
    (allNested ys).filter (!·.isFunction) = firsts.map d.globalOf

variable {d}

theorem Nests.append {xs others : List (Definition × List Stmt)} {ys zs : List Symbol}
    (first : d.Nests xs ys) (second : d.Nests others zs) : d.Nests (xs ++ others) (ys ++ zs) := by
  induction first with
  | nil => exact second
  | cons inside _ _ ih => exact .cons inside ih

theorem symbolsOf_cons (top : Bool) (seen : List Name) (s : Stmt) (rest : List Stmt) :
    d.symbolsOf top seen (s :: rest) =
      ((d.symbolsOfStmt top seen s).1 ++
          (d.symbolsOf top (d.symbolsOfStmt top seen s).2 rest).1,
        (d.symbolsOf top (d.symbolsOfStmt top seen s).2 rest).2) := rfl

mutual

theorem stmt_within_body (seen : List Name) : ∀ s : Stmt,
    (d.symbolsOfStmt false seen s).2 = seen ∧
      ∀ y ∈ (d.symbolsOfStmt false seen s).1, y.isFunction = true
  | .define _ _ _ _ body => by
    refine ⟨(within_body seen body).1, fun y member => ?_⟩
    obtain rfl := List.mem_singleton.mp member
    rfl
  | .loop _ _ body | .test _ _ _ _ body => within_body seen body
  | .make .. | .loopCall .. | .pen .. | .move .. | .turn .. | .home _ | .setXY .. | .setHeading ..
  | .call .. | .stop _ | .output .. =>
    ⟨rfl, fun _ member => absurd member List.not_mem_nil⟩

theorem within_body (seen : List Name) : ∀ ss : List Stmt,
    (d.symbolsOf false seen ss).2 = seen ∧
      ∀ y ∈ (d.symbolsOf false seen ss).1, y.isFunction = true
  | [] => ⟨rfl, fun _ member => absurd member List.not_mem_nil⟩
  | s :: rest => by
    obtain ⟨same, first⟩ := stmt_within_body seen s
    obtain ⟨later, others⟩ := within_body seen rest
    rw [symbolsOf_cons, same]
    refine ⟨later, fun y member => ?_⟩
    rcases List.mem_append.mp member with front | back
    · exact first y front
    · exact others y back

end

mutual

theorem stmt_functions (top : Bool) (seen : List Name) : ∀ s : Stmt,
    List.Forall₂ (fun q y => ∃ children, y = d.functionOf q children) s.definitions
      ((allNested (d.symbolsOfStmt top seen s).1).filter Symbol.isFunction)
  | .define _ _ _ _ body => by
    have inside := functions_listed false seen body
    rw [symbolsOfStmt, allNested, allNested, List.append_nil]
    exact .cons ⟨_, rfl⟩ inside
  | .make pos name value => by
    unfold symbolsOfStmt
    split <;> exact .nil
  | .loop _ _ body | .test _ _ _ _ body => functions_listed top seen body
  | .loopCall .. | .pen .. | .move .. | .turn .. | .home _ | .setXY .. | .setHeading ..
  | .call .. | .stop _ | .output .. => .nil

theorem functions_listed (top : Bool) : ∀ (seen : List Name) (ss : List Stmt),
    List.Forall₂ (fun q y => ∃ children, y = d.functionOf q children) (definitionsOf ss)
      ((allNested (d.symbolsOf top seen ss).1).filter Symbol.isFunction)
  | _, [] => .nil
  | seen, s :: rest => by
    rw [symbolsOf_cons, allNested_append, List.filter_append, definitionsOf]
    exact List.rel_append (stmt_functions top seen s) (functions_listed top _ rest)

end

mutual

theorem stmt_nests (top : Bool) (seen : List Name) : ∀ s : Stmt,
    d.Nests ((s :: statementsIn s.block).filterMap Stmt.definition?)
      ((d.symbolsOfStmt top seen s).1.filter Symbol.isFunction)
  | .define _ _ _ _ body => by
    have inside := nests false seen body
    rw [List.filter_eq_self.mpr (within_body seen body).2] at inside
    exact .cons inside .nil
  | .make pos name value => by
    unfold symbolsOfStmt
    split <;> exact .nil
  | .loop _ _ body | .test _ _ _ _ body => nests top seen body
  | .loopCall .. | .pen .. | .move .. | .turn .. | .home _ | .setXY .. | .setHeading ..
  | .call .. | .stop _ | .output .. => .nil

theorem nests (top : Bool) : ∀ (seen : List Name) (ss : List Stmt),
    d.Nests (definitionsIn ss) ((d.symbolsOf top seen ss).1.filter Symbol.isFunction)
  | _, [] => .nil
  | seen, s :: rest => by
    rw [symbolsOf_cons, List.filter_append, definitionsIn, statementsIn_cons, ← List.cons_append,
      List.filterMap_append]
    exact (stmt_nests top seen s).append (nests top _ rest)

end

mutual

theorem stmt_globals (seen : List Name) : ∀ s : Stmt,
    (d.symbolsOfStmt true seen s).1.filter (!·.isFunction) =
        (firstsFrom seen ((s :: statementsIn s.block).filterMap Stmt.assignment?)).map d.globalOf ∧
      (d.symbolsOfStmt true seen s).2 =
        seenBehind seen ((s :: statementsIn s.block).filterMap Stmt.assignment?)
  | .define _ _ _ _ body => ⟨rfl, (within_body seen body).1⟩
  | .make pos name value => by
    have own : (Stmt.make pos name value :: statementsIn (Stmt.make pos name value).block).filterMap
        Stmt.assignment? = [⟨name, pos⟩] := rfl
    rw [own, symbolsOfStmt, firstsFrom, seenBehind]
    cases seen.contains name <;> exact ⟨rfl, rfl⟩
  | .loop _ _ body | .test _ _ _ _ body => globals_listed seen body
  | .loopCall .. | .pen .. | .move .. | .turn .. | .home _ | .setXY .. | .setHeading ..
  | .call .. | .stop _ | .output .. => ⟨rfl, rfl⟩

theorem globals_listed : ∀ (seen : List Name) (ss : List Stmt),
    (d.symbolsOf true seen ss).1.filter (!·.isFunction) =
        (firstsFrom seen (assignmentsIn ss)).map d.globalOf ∧
      (d.symbolsOf true seen ss).2 = seenBehind seen (assignmentsIn ss)
  | _, [] => ⟨rfl, rfl⟩
  | seen, s :: rest => by
    obtain ⟨first, behind⟩ := stmt_globals seen s
    obtain ⟨others, last⟩ := globals_listed (d.symbolsOfStmt true seen s).2 rest
    rw [symbolsOf_cons, List.filter_append, assignmentsIn, statementsIn_cons, ← List.cons_append,
      List.filterMap_append, firstsFrom_append, seenBehind_append, List.map_append, first, others,
      last, behind]
    exact ⟨rfl, rfl⟩

end

theorem Nests.functions {xs : List (Definition × List Stmt)} {ys : List Symbol}
    (nested : d.Nests xs ys) : ∀ y ∈ allNested ys, y.isFunction = true := by
  induction nested with
  | nil => exact fun y member => absurd member List.not_mem_nil
  | cons _ _ inside others =>
    intro y member
    rcases List.mem_append.mp member with own | later
    · rcases List.mem_cons.mp own with rfl | below
      · rfl
      · exact inside y below
    · exact others y later

theorem globals_not_nested {ys : List Symbol}
    (functions : ∀ y ∈ allNested (ys.filter Symbol.isFunction), y.isFunction = true) :
    (allNested ys).filter (!·.isFunction) = ys.filter (!·.isFunction) := by
  induction ys with
  | nil => rfl
  | cons y ys ih =>
    rw [allNested, List.filter_append]
    cases y with
    | function name detail range selection children =>
      rw [List.filter_cons_of_pos rfl, allNested] at functions
      have no_globals : (Symbol.function name detail range selection children).withNested.filter
          (!·.isFunction) = [] := by
        refine List.filter_eq_nil_iff.mpr fun z member => ?_
        rw [functions z (List.mem_append_left _ member)]
        decide
      rw [no_globals, ih fun z member => functions z (List.mem_append_right _ member)]
      rfl
    | global name range => exact congrArg _ (ih functions)

theorem place_upTo (d : Document) {p q : Position} (order : p.Precedes q) (counted : 0 < p.line) :
    (d.place p).UpTo (d.place q) := by
  rcases order with above | ⟨same, before⟩
  · refine .inl ?_
    rw [place_line, place_line]
    omega
  · refine .inr ⟨by rw [place_line, place_line, same], ?_⟩
    rw [place, place, ← same, placeBehind, placeBehind]
    cases d.lines[p.line - 1]? with
    | none => exact Nat.le_refl 0
    | some text => exact unitCount_take_mono _ (by omega)

end Document

theorem placed_reached {source : Bytes} {p : Program} (accepted : parse source = .ok p) :
    ∀ place ∈ placed (lexemesOf p.statements), place.Reached source := by
  intro place member
  obtain ⟨x, listed, pos⟩ := List.mem_filterMap.mp member
  obtain ⟨t, inside, -, same⟩ := lexemes_stand accepted x listed
  exact places_reached source place (Lexed.mem_places.mpr (.inr (.inl ⟨t, inside, same _ pos⟩)))

open Document

section
variable {text : Bytes} {p : Program} (accepted : parse text = .ok p)
include accepted

theorem function_encloses (d : Document)
    {q : Definition} (defined : q ∈ definitionsOf p.statements) :
    (⟨d.place q.pos, (d.span q.namePos (runeCount q.name)).stop⟩ : Range).Encloses
      (d.span q.namePos (runeCount q.name)) := by
  have places := (name_places p.statements q defined).subset
  have header := placed_reached accepted q.pos (places List.mem_cons_self)
  have name := placed_reached accepted q.namePos (places (by simp))
  have counted : 0 < q.pos.line := by
    rw [header.exact.line]
    exact Nat.add_pos_left Nat.one_pos _
  have order := header.precedes name (name_behind_header accepted defined)
  exact ⟨d.place_upTo order counted, .inr ⟨rfl, Nat.le_refl _⟩⟩

theorem symbols_outline : (ofText text).Outlines p.statements (ofText text).symbols := by
  have read : (ofText text).statements = p.statements := by
    simp [statements, ofText, accepted]
  have nested : (ofText text).Nests (definitionsIn p.statements)
      ((ofText text).symbols.filter Symbol.isFunction) := by
    rw [symbols, read]
    exact nests true [] p.statements
  refine ⟨?_, nested, _, firstsFrom_firstOfEach _, ?_, ?_⟩
  · rw [symbols, read]
    have listed := functions_listed (d := ofText text) true [] p.statements
    refine ((List.forall₂_and_left _ _).mpr ⟨fun q defined => defined, listed⟩).imp ?_
    rintro q y ⟨defined, children, rfl⟩
    exact ⟨⟨children, rfl⟩, function_encloses accepted _ defined⟩
  · rw [symbols, read]
    exact (globals_listed [] p.statements).1
  · rw [globals_not_nested nested.functions, symbols, read]
    exact (globals_listed [] p.statements).1

end

/-- The symbols of a document are told from its program. Through all levels they have one function
    for each definition in the order of the text, which encloses its name; a definition is below the
    one whose body it lies in, blocks apart; and outside all of them there is one variable for each
    name that is assigned there, at the first assignment. Without a program there are none. -/
theorem symbols_are_the_outline (text : Bytes) :
    (∀ e, parse text = .error e → (ofText text).symbols = []) ∧
    ∀ p, parse text = .ok p →
      (ofText text).Outlines p.statements (ofText text).symbols ∧
      (definitionsOf p.statements).map Definition.pos =
        ((tokenize text).tokens.filter fun t => t.kind == .define).map Token.pos ∧
      (tokenize text).tokens.Pairwise (·.pos.offset < ·.pos.offset) ∧
      (assignmentsIn p.statements).Pairwise (·.pos.offset < ·.pos.offset) := by
  refine ⟨fun e broken => ?_, fun p accepted => ?_⟩
  · simp [symbols, statements, ofText, broken, symbolsOf]
  · refine ⟨symbols_outline accepted, definitions_are_headers accepted, tokens_increasing text, ?_⟩
    refine List.pairwise_filterMap.mpr ((statements_increasing accepted).imp ?_)
    intro s t before a first b second
    rw [assignment_pos first, assignment_pos second]
    exact before

def nestedText : Bytes :=
  utf8 ("repeat 2 [ to\nouter :n\n  if :n = 1 [ to inner fd 1 end ]\n  make \"local 1\nend\n" ++
    "make \"size 10 ]\nmake \"size 20\nmake \"count 1")

/-- The variable that the body assigns is not listed, and the one assigned twice is listed once. -/
theorem symbols_are_the_outline_of_nested_text :
    ∃ p, parse nestedText = .ok p ∧
      (ofText nestedText).Outlines p.statements (ofText nestedText).symbols ∧
      (allNested (ofText nestedText).symbols).map Symbol.selection =
        [⟨⟨1, 0⟩, ⟨1, 5⟩⟩, ⟨⟨2, 17⟩, ⟨2, 22⟩⟩, ⟨⟨5, 0⟩, ⟨5, 4⟩⟩, ⟨⟨7, 0⟩, ⟨7, 4⟩⟩] := by
  have selections : (allNested (ofText nestedText).symbols).map Symbol.selection =
      [⟨⟨1, 0⟩, ⟨1, 5⟩⟩, ⟨⟨2, 17⟩, ⟨2, 22⟩⟩, ⟨⟨5, 0⟩, ⟨5, 4⟩⟩, ⟨⟨7, 0⟩, ⟨7, 4⟩⟩] := by
    decide +kernel
  obtain ⟨broken, outlined⟩ := symbols_are_the_outline nestedText
  cases compiled : parse nestedText with
  | error e =>
    rw [broken e compiled] at selections
    contradiction
  | ok p => exact ⟨p, rfl, (outlined p compiled).1, selections⟩

end Editor
end TurtleLogo
