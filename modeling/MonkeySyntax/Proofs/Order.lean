/-
# The order of the tokens of a tree

The nodes of a program, read from left to right, have their tokens in the order of the input, and no
token of the input is that of two nodes (`node_tokens_in_order`).  This holds of every parse, also
of one with errors, because what was read is always a spelling of what was returned, if need be with
junk in it.  So it is a fact about spellings: every rule by which a piece of syntax is written puts
the tokens of its parts one after the other, and its own where `Expr.tokens` has it.

An expression statement has a token of its own, the first of its spelling.  Brackets around its
expression are in the spelling and not in the tree, so this is the first token of the expression, or
it is a bracket.
-/

import MonkeySyntax.Proofs.Soundness
import MonkeySyntax.Tree.Parts

namespace MonkeySyntax

/-- The tokens of the nodes of a piece of syntax, in the order in which they are written. -/
def Form.tokens : Form → List Token
  | .expr _ e => e.tokens
  | .exprs es | .moreExprs es => Expr.tokensAll es
  | .pairs ps => Expr.tokensPairs ps
  | .block b => b.tokens
  | .stmt s => s.tokens
  | .body ss => Stmt.tokensAll ss

/-- The statements in a piece of syntax. -/
def Form.stmts : Form → List Stmt
  | .expr _ e => e.stmts
  | .exprs es | .moreExprs es => Expr.stmtsAll es
  | .pairs ps => Expr.stmtsPairs ps
  | .block b => b.stmts
  | .stmt s => s :: s.stmts
  | .body ss => Stmt.stmtsAll ss

/-- An expression statement begins with the first token of its expression, or with a bracket. -/
def Stmt.Headed : Stmt → Prop
  | .expression t e => e.tokens.head? = some t ∨ t.kind = .mark .openParen
  | _ => True

open MonkeySyntax.Parsing MonkeySyntax.Spelling

/-- The tokens of further parameters are picked from their spelling in order. -/
theorem Spelling.MoreNames.picked {ns : List Identifier} {ts : List Token} (h : MoreNames ns ts) :
    Token.Picked (ns.map (·.token)) ts := by
  induction h with
  | nil => exact .nil []
  | cons _ ht _ ih => exact (Token.Picked.cons (by simp [nameOf, ht]) ih).skip _

/-- So are those of all the parameters. -/
theorem Spelling.Names.picked {ns : List Identifier} {ts : List Token} (h : Names ns ts) :
    Token.Picked (ns.map (·.token)) ts := by
  cases h with
  | nil => exact .nil []
  | cons ht h => exact .cons (by simp [nameOf, ht]) h.picked

namespace Spells

variable {L : Leeway} {f : Form} {ts : List Token} {d : Nat}

/-- **A spelling has the tokens of what it spells in order.** -/
theorem picked (h : Spells L f ts d) : Token.Picked f.tokens ts := by
  induction h with
  | identifier ht => exact .cons (by simp [nameOf, ht]) (.nil [])
  | integer ht | string ht | boolean ht | bareReturn ht => exact .cons (by simp [ht]) (.nil [])
  | prefixOp ht _ _ ih => exact .cons (ht.elim Kind.mark_ne_eof Kind.mark_ne_eof) ih
  | infixOp ht _ _ _ ihl ihr =>
    refine ihl.append (.cons (fun he => ?_) ihr)
    rw [he] at ht
    cases ht
  | call ho _ _ _ ihl ihr | index ho _ _ _ ihl ihr =>
    exact ihl.append (.cons (Kind.mark_ne_eof ho) (ihr.before _))
  | array ho _ _ ih | hash ho _ _ ih | block ho _ _ ih =>
    exact .cons (Kind.mark_ne_eof ho) (ih.before _)
  | grouped _ _ _ ih => exact (ih.before _).skip _
  | conditional ht _ _ ihe ihb => exact .cons (by simp [ht]) (ihe.append ihb)
  | alternative ht _ _ _ _ ihe ihb iha =>
    exact .cons (by simp [ht]) (ihe.append (ihb.append (iha.skip _)))
  | function ht _ _ hn _ ih => exact .cons (by simp [ht]) ((hn.picked.append (ih.skip _)).skip _)
  | noExprs | noMore | noPairs | noStmts => exact .nil []
  | exprs _ _ ihe ihs => exact ihe.append ihs
  | more _ _ _ ihe ihs => exact (ihe.append ihs).skip _
  | lastPair _ _ _ ihk ihv =>
    simpa [Form.tokens, Expr.tokensPairs] using ihk.append (ihv.skip _)
  | pairs _ _ _ _ _ ihk ihv ihs => exact ihk.append ((ihv.append (ihs.skip _)).skip _)
  | letBinding ht hi _ _ ih => exact .cons (by simp [ht]) (.cons (by simp [nameOf, hi]) (ih.skip _))
  | returnValue ht _ ih => exact .cons (by simp [ht]) ih
  | expression _ ih => exact ih
  | stmts _ _ _ ihs ihb => exact ihs.append (ihb.after _)
  | junk _ _ ih => exact ih.after _

/-- An expression is written from its first token on, or from a bracket on. -/
theorem head_tokens {n : Nat} {e : Expr} (h : Spells L (.expr n e) ts d) :
    ∃ t us, ts = t :: us ∧ (e.tokens.head? = some t ∨ t.kind = .mark .openParen) := by
  generalize hf : Form.expr n e = f at h
  induction h generalizing n e with
  | identifier | integer | string | boolean | prefixOp | array | hash | conditional | alternative
  | function =>
    cases hf
    exact ⟨_, _, rfl, .inl rfl⟩
  | grouped ho => exact ⟨_, _, rfl, .inr ho⟩
  | infixOp _ _ _ _ ih | call _ _ _ _ ih | index _ _ _ _ ih =>
    cases hf
    obtain ⟨t, us, rfl, ht⟩ := ih rfl
    exact ⟨t, _, rfl, ht.imp_left fun ht => by simp [Expr.tokens, ht]⟩
  | _ => cases hf

/-- **The expression statements in what is spelled** begin with their expressions. -/
theorem headed (h : Spells L f ts d) : ∀ s ∈ f.stmts, s.Headed := by
  induction h with
  | identifier | integer | string | boolean | noExprs | noMore | noPairs | noStmts =>
    exact List.forall_mem_nil _
  | prefixOp _ _ _ ih | array _ _ _ ih | hash _ _ _ ih | function _ _ _ _ _ ih
  | grouped _ _ _ ih | block _ _ _ ih | junk _ _ ih => exact ih
  | infixOp _ _ _ _ ihl ihr | call _ _ _ _ ihl ihr | index _ _ _ _ ihl ihr
  | conditional _ _ _ ihl ihr | exprs _ _ ihl ihr | more _ _ _ ihl ihr =>
    exact List.forall_mem_append.2 ⟨ihl, ihr⟩
  | alternative _ _ _ _ _ ihe ihb iha =>
    exact List.forall_mem_append.2 ⟨ihe, List.forall_mem_append.2 ⟨ihb, iha⟩⟩
  | lastPair _ _ _ ihk ihv =>
    exact List.forall_mem_append.2 ⟨ihk, List.forall_mem_append.2 ⟨ihv, List.forall_mem_nil _⟩⟩
  | pairs _ _ _ _ _ ihk ihv ihs =>
    exact List.forall_mem_append.2 ⟨ihk, List.forall_mem_append.2 ⟨ihv, ihs⟩⟩
  | letBinding _ _ _ _ ih | returnValue _ _ ih => exact List.forall_mem_cons.2 ⟨trivial, ih⟩
  | bareReturn => exact List.forall_mem_cons.2 ⟨trivial, List.forall_mem_nil _⟩
  | expression h ih =>
    obtain ⟨t, us, hts, ht⟩ := h.head_tokens
    obtain ⟨rfl, rfl⟩ := List.cons.inj hts
    exact List.forall_mem_cons.2 ⟨ht, ih⟩
  | stmts _ _ _ ihs ihb =>
    obtain ⟨hs, hin⟩ := List.forall_mem_cons.1 ihs
    exact List.forall_mem_cons.2 ⟨hs, List.forall_mem_append.2 ⟨hin, ihb⟩⟩

end Spells

/-- **The tokens of a tree are in the order of the input.**  From left to right, the nodes of the
program that a list of tokens is read as have tokens picked from the list in order, none of them
twice and no end of input among them, whether there were errors or not.  And every expression
statement, at any depth, has the first token of its expression, or an opening bracket. -/
theorem node_tokens_in_order (ts : List Token) :
    (parse ts).1.tokens.Sublist (ts.filter (·.kind ≠ .eof)) ∧
    ∀ t e, .expression t e ∈ (parse ts).1.stmts →
      e.tokens.head? = some t ∨ t.kind = .mark .openParen := by
  obtain ⟨-, us, d, hus, -, hs⟩ :=
    Parsing.statements_stand (Parser.start (Stream.ofList ts)) rfl
  exact ⟨hus.picked hs.picked, fun t e he => hs.headed _ he⟩

end MonkeySyntax
