/-
# How deeply trees nest to the right

`e.rightNesting` counts the expressions that are read one inside of the other, `e` itself included.
A left operand, a callee and what is indexed are read at the level of the whole, everything else in
an expression one level deeper:

| expression | right nesting |
| --- | --- |
| name, literal | 1 |
| prefix | 1 more than the operand |
| infix, index, call | 1 more than what is right of the left part, and no less than the left part |
| array, hash, conditional, function | 1 more than the deepest of the expressions directly in it |

No expression in a tree nests more deeply than the tree does
(`Expr.nodes_nestWithin`).
-/

import MonkeySyntax.Tree.Nodes

namespace MonkeySyntax

mutual

/-- How many expressions of a tree are read one inside of the other. -/
def Expr.rightNesting : Expr → Nat
  | .identifier _ | .integer _ _ | .boolean _ _ | .string _ _ => 1
  | .prefixOp _ _ right => right.rightNesting + 1
  | .infixOp _ left _ right => max left.rightNesting (right.rightNesting + 1)
  | .conditional _ condition consequence none =>
    max condition.rightNesting consequence.rightNesting + 1
  | .conditional _ condition consequence (some alternative) =>
    max condition.rightNesting (max consequence.rightNesting alternative.rightNesting) + 1
  | .function _ _ body => body.rightNesting + 1
  | .call _ callee arguments => max callee.rightNesting (Expr.rightNestingAll arguments + 1)
  | .array _ elements => Expr.rightNestingAll elements + 1
  | .index _ left index => max left.rightNesting (index.rightNesting + 1)
  | .hash _ pairs => Expr.rightNestingPairs pairs + 1

/-- The right nesting of the deepest expression of a list. -/
def Expr.rightNestingAll : List Expr → Nat
  | [] => 0
  | e :: es => max e.rightNesting (Expr.rightNestingAll es)

/-- The right nesting of the deepest key or value of a list. -/
def Expr.rightNestingPairs : List (Expr × Expr) → Nat
  | [] => 0
  | (key, value) :: pairs =>
    max key.rightNesting (max value.rightNesting (Expr.rightNestingPairs pairs))

/-- The right nesting of the expression of a statement, if it has one. -/
def Stmt.rightNesting : Stmt → Nat
  | .letBinding _ _ value => value.rightNesting
  | .returnValue _ none => 0
  | .returnValue _ (some value) => value.rightNesting
  | .expression _ e => e.rightNesting
  | .block b => b.rightNesting

/-- The right nesting of the deepest expression of the statements of a list. -/
def Stmt.rightNestingAll : List Stmt → Nat
  | [] => 0
  | s :: ss => max s.rightNesting (Stmt.rightNestingAll ss)

/-- The right nesting of the deepest expression of the statements of a block. -/
def Block.rightNesting : Block → Nat
  | .mk _ body => Stmt.rightNestingAll body

end

example (t : Token) (a b c : Expr) :
    (Expr.infixOp t (.infixOp t a "+" b) "+" c).rightNesting =
      max (max a.rightNesting (b.rightNesting + 1)) (c.rightNesting + 1) := rfl

/-- A list of expressions nests within a bound if each of them does. -/
theorem Expr.rightNestingAll_le_iff {n : Nat} {es : List Expr} :
    Expr.rightNestingAll es ≤ n ↔ ∀ e ∈ es, e.rightNesting ≤ n := by
  induction es with
  | nil => simp [Expr.rightNestingAll]
  | cons e es ih => rw [Expr.rightNestingAll, Nat.max_le, ih, List.forall_mem_cons]

/-- Pairs nest within a bound if each key and each value does. -/
theorem Expr.rightNestingPairs_le_iff {n : Nat} {ps : List (Expr × Expr)} :
    Expr.rightNestingPairs ps ≤ n ↔ ∀ p ∈ ps, p.1.rightNesting ≤ n ∧ p.2.rightNesting ≤ n := by
  induction ps with
  | nil => simp [Expr.rightNestingPairs]
  | cons p ps ih =>
    rw [Expr.rightNestingPairs, Nat.max_le, Nat.max_le, ih, List.forall_mem_cons, and_assoc]

/-- A list of statements nests within a bound if each of them does. -/
theorem Stmt.rightNestingAll_le_iff {n : Nat} {ss : List Stmt} :
    Stmt.rightNestingAll ss ≤ n ↔ ∀ s ∈ ss, s.rightNesting ≤ n := by
  induction ss with
  | nil => simp [Stmt.rightNestingAll]
  | cons s ss ih => rw [Stmt.rightNestingAll, Nat.max_le, ih, List.forall_mem_cons]

/-- An expression of at most that right nesting, or a node of another sort. -/
def Node.NestsWithin (n : Nat) : Node → Prop
  | .expr e => e.rightNesting ≤ n
  | _ => True

mutual

/-- **No expression in a tree nests more deeply than the tree.** -/
theorem Expr.nodes_nestWithin {n : Nat} :
    ∀ e : Expr, e.rightNesting ≤ n → ∀ x ∈ e.nodes, x.NestsWithin n
  | .identifier _, h => List.forall_mem_cons.2 ⟨h, List.forall_mem_singleton.2 trivial⟩
  | .integer _ _, h | .boolean _ _, h | .string _ _, h => List.forall_mem_singleton.2 h
  | .prefixOp _ _ right, h =>
    List.forall_mem_cons.2 ⟨h, right.nodes_nestWithin (Nat.le_of_succ_le h)⟩
  | .infixOp _ left _ right, h => by
    obtain ⟨hl, hr⟩ := Nat.max_le.1 h
    exact List.forall_mem_cons.2 ⟨h, List.forall_mem_append.2
      ⟨left.nodes_nestWithin hl, right.nodes_nestWithin (Nat.le_of_succ_le hr)⟩⟩
  | .conditional _ condition consequence none, h => by
    obtain ⟨hc, hb⟩ := Nat.max_le.1 (Nat.le_of_succ_le h)
    exact List.forall_mem_cons.2 ⟨h, List.forall_mem_append.2
      ⟨condition.nodes_nestWithin hc, consequence.nodes_nestWithin hb⟩⟩
  | .conditional _ condition consequence (some alternative), h => by
    obtain ⟨hc, hba⟩ := Nat.max_le.1 (Nat.le_of_succ_le h)
    obtain ⟨hb, ha⟩ := Nat.max_le.1 hba
    exact List.forall_mem_cons.2 ⟨h, List.forall_mem_append.2 ⟨condition.nodes_nestWithin hc,
      List.forall_mem_append.2
        ⟨consequence.nodes_nestWithin hb, alternative.nodes_nestWithin ha⟩⟩⟩
  | .function _ _ body, h =>
    List.forall_mem_cons.2 ⟨h, List.forall_mem_append.2
      ⟨List.forall_mem_map.2 fun _ _ => trivial, body.nodes_nestWithin (Nat.le_of_succ_le h)⟩⟩
  | .call _ callee arguments, h => by
    obtain ⟨hf, hs⟩ := Nat.max_le.1 h
    exact List.forall_mem_cons.2 ⟨h, List.forall_mem_append.2
      ⟨callee.nodes_nestWithin hf, Expr.nodesAll_nestWithin arguments (Nat.le_of_succ_le hs)⟩⟩
  | .array _ elements, h =>
    List.forall_mem_cons.2 ⟨h, Expr.nodesAll_nestWithin elements (Nat.le_of_succ_le h)⟩
  | .index _ left index, h => by
    obtain ⟨hl, hi⟩ := Nat.max_le.1 h
    exact List.forall_mem_cons.2 ⟨h, List.forall_mem_append.2
      ⟨left.nodes_nestWithin hl, index.nodes_nestWithin (Nat.le_of_succ_le hi)⟩⟩
  | .hash _ pairs, h =>
    List.forall_mem_cons.2 ⟨h, Expr.nodesPairs_nestWithin pairs (Nat.le_of_succ_le h)⟩

/-- The bound on a list of expressions is one on every node in it. -/
theorem Expr.nodesAll_nestWithin {n : Nat} :
    ∀ es : List Expr, Expr.rightNestingAll es ≤ n → ∀ x ∈ Expr.nodesAll es, x.NestsWithin n
  | [], _ => List.forall_mem_nil _
  | e :: es, h => by
    obtain ⟨he, hes⟩ := Nat.max_le.1 h
    exact List.forall_mem_append.2 ⟨e.nodes_nestWithin he, Expr.nodesAll_nestWithin es hes⟩

/-- The bound on the pairs of a hash is one on every node in them. -/
theorem Expr.nodesPairs_nestWithin {n : Nat} : ∀ ps : List (Expr × Expr),
    Expr.rightNestingPairs ps ≤ n → ∀ x ∈ Expr.nodesPairs ps, x.NestsWithin n
  | [], _ => List.forall_mem_nil _
  | (key, value) :: ps, h => by
    obtain ⟨hk, hvs⟩ := Nat.max_le.1 h
    obtain ⟨hv, hps⟩ := Nat.max_le.1 hvs
    exact List.forall_mem_append.2 ⟨key.nodes_nestWithin hk, List.forall_mem_append.2
      ⟨value.nodes_nestWithin hv, Expr.nodesPairs_nestWithin ps hps⟩⟩

/-- The bound on a statement is one on every node in it. -/
theorem Stmt.nodes_nestWithin {n : Nat} :
    ∀ s : Stmt, s.rightNesting ≤ n → ∀ x ∈ s.nodes, x.NestsWithin n
  | .letBinding _ _ value, h =>
    List.forall_mem_cons.2 ⟨trivial, List.forall_mem_cons.2 ⟨trivial, value.nodes_nestWithin h⟩⟩
  | .returnValue _ none, _ => List.forall_mem_singleton.2 trivial
  | .returnValue _ (some value), h => List.forall_mem_cons.2 ⟨trivial, value.nodes_nestWithin h⟩
  | .expression _ e, h => List.forall_mem_cons.2 ⟨trivial, e.nodes_nestWithin h⟩
  | .block b, h => List.forall_mem_cons.2 ⟨trivial, b.nodes_nestWithin h⟩

/-- The bound on a list of statements is one on every node in it. -/
theorem Stmt.nodesAll_nestWithin {n : Nat} :
    ∀ ss : List Stmt, Stmt.rightNestingAll ss ≤ n → ∀ x ∈ Stmt.nodesAll ss, x.NestsWithin n
  | [], _ => List.forall_mem_nil _
  | s :: ss, h => by
    obtain ⟨hs, hss⟩ := Nat.max_le.1 h
    exact List.forall_mem_append.2 ⟨s.nodes_nestWithin hs, Stmt.nodesAll_nestWithin ss hss⟩

/-- The bound on a block is one on every node in it. -/
theorem Block.nodes_nestWithin {n : Nat} :
    ∀ b : Block, b.rightNesting ≤ n → ∀ x ∈ b.nodes, x.NestsWithin n
  | .mk _ body, h => List.forall_mem_cons.2 ⟨trivial, Stmt.nodesAll_nestWithin body h⟩

end

end MonkeySyntax
