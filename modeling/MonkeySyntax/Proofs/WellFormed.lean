/-
# Nodes and their tokens

Every node has a token of the kind that it is read from, and what is kept beside the token follows
from it:

| node | kind of its token | kept beside it |
| --- | --- | --- |
| a name, used, bound by `let` or a parameter | identifier | the token's value |
| string | string | the token's value |
| number | integer | the 64-bit integer that the value spells |
| boolean | `true` or `false` | which of them it is |
| prefix, infix | `!` or `-`, one of the eight binary operators | the token's value |
| call; array, index | `(`; `[` | |
| hash, block | `{` | |
| conditional, function, `let`, `return` | the keyword | |

A block is no statement by itself.  All this holds of every program that is read by the grammar of
Monkey, also where something was wrong (`program_wellFormed`): what was read is a spelling of what
was returned, and a rule by which a node is written tells the kind of its token.
-/

import MonkeySyntax.Proofs.Soundness
import MonkeySyntax.Tree.Equality
import MonkeySyntax.Tree.Nodes

namespace MonkeySyntax

/-- The operators between two operands. -/
def Mark.binaryOperators : List Mark :=
  [.equals, .notEquals, .less, .greater, .plus, .dash, .star, .slash]

/-- The token of a node is of the kind that such nodes are read from, and what is kept beside the
token follows from it. -/
def Node.WellFormed : Node → Prop
  | .name n => n.token.kind = .identifier ∧ n.value = n.token.value
  | .expr (.identifier _) => True
  | .expr (.integer t value) => t.kind = .integer ∧ Numeral.int64? t.value = some value
  | .expr (.boolean t value) =>
    (t.kind = .keyword .trueWord ∨ t.kind = .keyword .falseWord) ∧
      (value = true ↔ t.kind = .keyword .trueWord)
  | .expr (.string t value) => t.kind = .string ∧ value = t.value
  | .expr (.prefixOp t operator _) =>
    (t.kind = .mark .not ∨ t.kind = .mark .dash) ∧ operator = t.value
  | .expr (.infixOp t _ operator _) =>
    (∃ m ∈ Mark.binaryOperators, t.kind = .mark m) ∧ operator = t.value
  | .expr (.conditional t _ _ _) => t.kind = .keyword .ifWord
  | .expr (.function t _ _) => t.kind = .keyword .fnWord
  | .expr (.call t _ _) => t.kind = .mark .openParen
  | .expr (.array t _) => t.kind = .mark .openBracket
  | .expr (.index t _ _) => t.kind = .mark .openBracket
  | .expr (.hash t _) => t.kind = .mark .openCurly
  | .stmt (.letBinding t _ _) => t.kind = .keyword .letWord
  | .stmt (.returnValue t _) => t.kind = .keyword .returnWord
  | .stmt (.expression _ _) => True
  | .stmt (.block _) => False
  | .block b => b.token.kind = .mark .openCurly

/-- The nodes of a piece of syntax. -/
def Form.nodes : Form → List Node
  | .expr _ e => e.nodes
  | .exprs es | .moreExprs es => Expr.nodesAll es
  | .pairs ps => Expr.nodesPairs ps
  | .block b => b.nodes
  | .stmt s => s.nodes
  | .body ss => Stmt.nodesAll ss

open MonkeySyntax.Parsing MonkeySyntax.Spelling

/-- Only the marks of binary operators are binary operators. -/
theorem Grammar.binaryOperator_of_infixRule {k : Kind} {q : Power}
    (h : standard.infixRule k = some (q, .binary)) : ∃ m ∈ Mark.binaryOperators, k = .mark m := by
  simp only [standard] at h
  split at h <;> cases h <;> exact ⟨_, by decide, rfl⟩

/-- A name that is made of a token has its text. -/
theorem Parsing.nameOf_wellFormed {t : Token} (ht : t.kind = .identifier) :
    (Node.name (nameOf t)).WellFormed := ⟨ht, rfl⟩

/-- Further parameters are well-formed names. -/
theorem Spelling.MoreNames.wellFormed {ns : List Identifier} {ts : List Token}
    (h : MoreNames ns ts) : ∀ x ∈ ns.map Node.name, x.WellFormed := by
  induction h with
  | nil => exact List.forall_mem_nil _
  | cons _ ht _ ih => exact List.forall_mem_cons.2 ⟨nameOf_wellFormed ht, ih⟩

/-- Parameters are well-formed names. -/
theorem Spelling.Names.wellFormed {ns : List Identifier} {ts : List Token} (h : Names ns ts) :
    ∀ x ∈ ns.map Node.name, x.WellFormed := by
  cases h with
  | nil => exact List.forall_mem_nil _
  | cons ht h => exact List.forall_mem_cons.2 ⟨nameOf_wellFormed ht, h.wellFormed⟩

/-- **What can be spelled is well-formed,** with junk in the spelling or without. -/
theorem Spells.wellFormed {L : Leeway} {f : Form} {ts : List Token} {d : Nat}
    (h : Spells L f ts d) : ∀ x ∈ f.nodes, x.WellFormed := by
  induction h with
  | identifier ht =>
    exact List.forall_mem_cons.2 ⟨trivial, List.forall_mem_singleton.2 (nameOf_wellFormed ht)⟩
  | integer ht hv => exact List.forall_mem_singleton.2 ⟨ht, hv⟩
  | string ht => exact List.forall_mem_singleton.2 ⟨ht, rfl⟩
  | @boolean _ _ b ht =>
    refine List.forall_mem_singleton.2 ?_
    cases b <;> simp_all [Node.WellFormed]
  | prefixOp ht _ _ ih => exact List.forall_mem_cons.2 ⟨⟨ht, rfl⟩, ih⟩
  | infixOp ht _ _ _ ihl ihr =>
    exact List.forall_mem_cons.2 ⟨⟨Grammar.binaryOperator_of_infixRule ht, rfl⟩,
      List.forall_mem_append.2 ⟨ihl, ihr⟩⟩
  | call ho _ _ _ ihl ihr | index ho _ _ _ ihl ihr =>
    exact List.forall_mem_cons.2 ⟨ho, List.forall_mem_append.2 ⟨ihl, ihr⟩⟩
  | conditional ht _ _ ihe ihb =>
    exact List.forall_mem_cons.2 ⟨ht, List.forall_mem_append.2 ⟨ihe, ihb⟩⟩
  | array ho _ _ ih | hash ho _ _ ih | block ho _ _ ih => exact List.forall_mem_cons.2 ⟨ho, ih⟩
  | alternative ht _ _ _ _ ihe ihb iha =>
    exact List.forall_mem_cons.2 ⟨ht, List.forall_mem_append.2 ⟨ihe,
      List.forall_mem_append.2 ⟨ihb, iha⟩⟩⟩
  | function ht _ _ hn _ ih =>
    exact List.forall_mem_cons.2 ⟨ht, List.forall_mem_append.2 ⟨hn.wellFormed, ih⟩⟩
  | grouped _ _ _ ih | junk _ _ ih => exact ih
  | noExprs | noMore | noPairs | noStmts => exact List.forall_mem_nil _
  | exprs _ _ ihe ihs | more _ _ _ ihe ihs | stmts _ _ _ ihe ihs =>
    exact List.forall_mem_append.2 ⟨ihe, ihs⟩
  | lastPair _ _ _ ihk ihv =>
    exact List.forall_mem_append.2 ⟨ihk, List.forall_mem_append.2 ⟨ihv, List.forall_mem_nil _⟩⟩
  | pairs _ _ _ _ _ ihk ihv ihs =>
    exact List.forall_mem_append.2 ⟨ihk, List.forall_mem_append.2 ⟨ihv, ihs⟩⟩
  | letBinding ht hi _ _ ih =>
    exact List.forall_mem_cons.2 ⟨ht, List.forall_mem_cons.2 ⟨nameOf_wellFormed hi, ih⟩⟩
  | bareReturn ht => exact List.forall_mem_singleton.2 ht
  | returnValue ht _ ih => exact List.forall_mem_cons.2 ⟨ht, ih⟩
  | expression _ ih => exact List.forall_mem_cons.2 ⟨trivial, ih⟩

/-- **Every node of a program is well-formed.**  Whatever tokens a parser of Monkey reads, also
where statements of them are dropped, each node of the program, at any depth, has a token of the
kind that belongs to it and keeps beside it what the token says, and no statement is a block. -/
theorem program_wellFormed {σ : Type} [TokenSource σ] {p : Parser σ}
    (hp : p.grammar = .standard) : ∀ x ∈ p.program.1.nodes, x.WellFormed := by
  obtain ⟨-, ts, d, -, -, hspells⟩ := Parsing.statements_stand p hp
  exact hspells.wellFormed

/-- The tokens of `} !a`, none of them placed in a text: the bracket starts nothing. -/
def strayBracket : List Token :=
  [⟨.mark .closeCurly, "\x7d", .null⟩, ⟨.mark .not, "!", .null⟩, ⟨.identifier, "a", .null⟩,
    .eof .null]

/-- The hypotheses of `program_wellFormed` are satisfiable by a text with errors: `!a`, which is
read of it all the same, is well-formed. -/
theorem program_wellFormed_strayBracket :
    (parse strayBracket).2.errors ≠ [] ∧
      Node.expr (.prefixOp ⟨.mark .not, "!", .null⟩ "!"
        (.identifier ⟨⟨.identifier, "a", .null⟩, "a"⟩)) ∈ (parse strayBracket).1.nodes ∧
      Node.WellFormed (.expr (.prefixOp ⟨.mark .not, "!", .null⟩ "!"
        (.identifier ⟨⟨.identifier, "a", .null⟩, "a"⟩))) := by
  have hprogram : (parse strayBracket).1 = ⟨[.expression ⟨.mark .not, "!", .null⟩
      (.prefixOp ⟨.mark .not, "!", .null⟩ "!"
        (.identifier ⟨⟨.identifier, "a", .null⟩, "a"⟩))]⟩ := by decide +kernel
  have hmem : Node.expr (.prefixOp ⟨.mark .not, "!", .null⟩ "!"
      (.identifier ⟨⟨.identifier, "a", .null⟩, "a"⟩)) ∈ (parse strayBracket).1.nodes := by
    rw [hprogram]
    exact .tail _ (.head _)
  exact ⟨by decide +kernel, hmem, program_wellFormed rfl _ hmem⟩

end MonkeySyntax
