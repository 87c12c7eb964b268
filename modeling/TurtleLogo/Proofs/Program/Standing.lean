import TurtleLogo.Proofs.Program.Lexemes
import TurtleLogo.Proofs.Program.Nodes

/-!
Where the nodes of a program stand. The lexemes of a node are among those of the statements that it
lies in, at any depth, so a program that was read from a text has a token for each of its nodes.
-/
namespace TurtleLogo

namespace Node

def lexemes : Node → List Lexeme
  | stmt s => s.lexemes
  | expr e => e.lexemes

theorem starts_at_pos (node : Node) :
    ∃ x rest, node.lexemes = x :: rest ∧ x.pos = some node.pos := by
  cases node with
  | stmt s => exact stmt_starts_at_pos s
  | expr e => exact expr_starts_at_pos e

end Node

mutual

theorem expr_nodes_stand : ∀ (e : Expr), ∀ node ∈ e.nodes, node.lexemes ⊆ e.lexemes
  | e, node, member => by
    rcases List.mem_cons.mp member with rfl | inside
    · exact List.Subset.refl _
    · exact expr_inner_stands e node inside

theorem expr_inner_stands : ∀ (e : Expr), ∀ node ∈ e.inner, node.lexemes ⊆ e.lexemes
  | .number .., _, member | .param .., _, member | .var .., _, member =>
    absurd member List.not_mem_nil
  | .negate pos e, node, member | .random pos e, node, member =>
    List.subset_cons_of_subset _ (expr_nodes_stand e node member)
  | .group _ e, node, member => by
    have stands := expr_nodes_stand e node member
    exact List.subset_cons_of_subset _ (List.subset_append_of_subset_left _ stands)
  | .binary op left right, node, member => by
    have parts : node ∈ left.nodes ++ right.nodes := member
    rcases List.mem_append.mp parts with first | second
    · exact List.subset_append_of_subset_left _ (expr_nodes_stand left node first)
    · have stands :=
        List.subset_cons_of_subset (.inner op.kind) (expr_nodes_stand right node second)
      exact List.subset_append_of_subset_right _ stands
  | .call _ _ args, node, member => List.subset_cons_of_subset _ (arguments_stand args node member)

theorem arguments_stand : ∀ (es : List Expr), ∀ node ∈ argumentNodes es,
    node.lexemes ⊆ lexemesOfArgs es
  | [], _, member => absurd member List.not_mem_nil
  | e :: rest, node, member => by
    have parts : node ∈ e.nodes ++ argumentNodes rest := member
    rcases List.mem_append.mp parts with first | later
    · exact List.subset_append_of_subset_left _ (expr_nodes_stand e node first)
    · exact List.subset_append_of_subset_right _ (arguments_stand rest node later)

end

theorem block_stands {xs : List Lexeme} {body : List Stmt} (inside : xs ⊆ lexemesOf body) :
    xs ⊆ .inner .leftBracket :: (lexemesOf body ++ [.inner .rightBracket]) :=
  List.subset_cons_of_subset _ (List.subset_append_of_subset_left _ inside)

mutual

theorem stmt_inner_stands : ∀ (s : Stmt), ∀ node ∈ s.inner, node.lexemes ⊆ s.lexemes
  | .define .., _, member | .pen .., _, member | .home _, _, member | .stop _, _, member =>
    absurd member List.not_mem_nil
  | .loop _ count body, node, member => by
    rcases List.mem_append.mp member with first | inside
    · have stands := expr_nodes_stand count node first
      exact List.subset_cons_of_subset _ (List.subset_append_of_subset_left _ stands)
    · have stands := block_stands (nodes_stand body node inside)
      exact List.subset_cons_of_subset _ (List.subset_append_of_subset_right _ stands)
  | .test _ left op right body, node, member => by
    rcases List.mem_append.mp member with first | others
    · have stands := expr_nodes_stand left node first
      exact List.subset_cons_of_subset _ (List.subset_append_of_subset_left _ stands)
    refine List.subset_cons_of_subset _ (List.subset_append_of_subset_right _ ?_)
    refine List.subset_cons_of_subset _ ?_
    rcases List.mem_append.mp others with second | inside
    · exact List.subset_append_of_subset_left _ (expr_nodes_stand right node second)
    · have stands := block_stands (nodes_stand body node inside)
      exact List.subset_append_of_subset_right _ stands
  | .call _ _ args, node, member => List.subset_cons_of_subset _ (arguments_stand args node member)
  | .make _ _ e, node, member => by
    have stands := expr_nodes_stand e node member
    exact List.subset_cons_of_subset _ (List.subset_cons_of_subset _ stands)
  | .loopCall _ e _, node, member => by
    have stands := expr_nodes_stand e node member
    exact List.subset_cons_of_subset _ (List.subset_append_of_subset_left _ stands)
  | .move _ _ e, node, member | .turn _ _ e, node, member | .setHeading _ e, node, member
  | .output _ e, node, member => List.subset_cons_of_subset _ (expr_nodes_stand e node member)
  | .setXY _ x y, node, member => by
    rcases List.mem_append.mp member with first | second
    · have stands := expr_nodes_stand x node first
      exact List.subset_cons_of_subset _ (List.subset_append_of_subset_left _ stands)
    · have stands := expr_nodes_stand y node second
      exact List.subset_cons_of_subset _ (List.subset_append_of_subset_right _ stands)

theorem nodes_stand : ∀ (ss : List Stmt), ∀ node ∈ nodesOf ss, node.lexemes ⊆ lexemesOf ss
  | [], _, member => absurd member List.not_mem_nil
  | s :: rest, node, member => by
    rcases List.mem_cons.mp member with rfl | others
    · exact List.subset_append_left _ _
    rcases List.mem_append.mp others with inside | later
    · exact List.subset_append_of_subset_left _ (stmt_inner_stands s node inside)
    · exact List.subset_append_of_subset_right _ (nodes_stand rest node later)

end

mutual

theorem stmt_bodies_stand : ∀ (s : Stmt), ∀ q ∈ s.procedures, lexemesOf q.body ⊆ s.lexemes
  | .define pos name namePos params body, q, member => by
    refine List.subset_cons_of_subset _ (List.subset_cons_of_subset _ ?_)
    refine List.subset_append_of_subset_right _ (List.subset_append_of_subset_left _ ?_)
    rcases List.mem_cons.mp member with rfl | inside
    · exact List.Subset.refl _
    · exact bodies_stand body q inside
  | .loop _ count body, q, member => by
    have stands := block_stands (bodies_stand body q member)
    exact List.subset_cons_of_subset _ (List.subset_append_of_subset_right _ stands)
  | .test _ left op right body, q, member => by
    have stands := block_stands (bodies_stand body q member)
    refine List.subset_cons_of_subset _ (List.subset_append_of_subset_right _ ?_)
    exact List.subset_cons_of_subset _ (List.subset_append_of_subset_right _ stands)
  | .make .., _, member | .loopCall .., _, member | .pen .., _, member | .move .., _, member
  | .turn .., _, member | .home _, _, member | .setXY .., _, member | .setHeading .., _, member
  | .call .., _, member | .stop _, _, member | .output .., _, member =>
    absurd member List.not_mem_nil

theorem bodies_stand : ∀ (ss : List Stmt), ∀ q ∈ proceduresOf ss,
    lexemesOf q.body ⊆ lexemesOf ss
  | [], _, member => absurd member List.not_mem_nil
  | s :: rest, q, member => by
    rcases List.mem_append.mp member with first | later
    · exact List.subset_append_of_subset_left _ (stmt_bodies_stand s q first)
    · exact List.subset_append_of_subset_right _ (bodies_stand rest q later)

end

/-- A node of the program, outside all procedures or in the body of one. -/
def Program.HasNode (p : Program) (node : Node) : Prop :=
  node ∈ nodesOf p.statements ∨ ∃ q ∈ p.procedures, node ∈ nodesOf q.body

theorem Program.HasNode.stands {p : Program} {node : Node} (lies : p.HasNode node) :
    node.lexemes ⊆ lexemesOf p.statements := by
  rcases lies with outside | ⟨q, defined, inside⟩
  · exact nodes_stand p.statements node outside
  · exact List.Subset.trans (nodes_stand q.body node inside) (bodies_stand p.statements q defined)

/-- A call has a lexeme that is the name of the procedure. It is at the place of the node, unless
    the node is a loop around the call. -/
theorem Node.target_lexeme {node : Node} {name : Name} (calls : node.target? = some name) :
    ∃ pos, (⟨.identifier, .text name, pos⟩ : Lexeme) ∈ node.lexemes ∧
      (pos = some node.pos ∨ ∃ start count, node = .stmt (.loopCall start count name)) := by
  unfold Node.target? at calls
  split at calls
  · obtain rfl := Option.some.inj calls
    exact ⟨_, List.mem_cons_self, .inl rfl⟩
  · obtain rfl := Option.some.inj calls
    refine ⟨none, List.mem_cons_of_mem _ ?_, .inr ⟨_, _, rfl⟩⟩
    exact List.mem_append_right _ (List.mem_singleton.mpr rfl)
  · obtain rfl := Option.some.inj calls
    exact ⟨_, List.mem_cons_self, .inl rfl⟩
  · contradiction

end TurtleLogo
