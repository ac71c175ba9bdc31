/-
# Expressions and programs keep a discipline

Each rule of the grammar keeps a discipline if the expressions inside of it do, so expressions of
any depth do (`Discipline.keeps_expression`).  A program keeps one from its first token to the end
of the input if nothing else is asked of statements that fail outside of all blocks
(`Discipline.keeps_statements`).
-/

import MonkeySyntax.Proofs.Discipline.Statements
import MonkeySyntax.Proofs.Standard

namespace MonkeySyntax
namespace Discipline

open MonkeySyntax.Action MonkeySyntax.Parsing

variable {σ : Type} [TokenSource σ] {D : Discipline σ} {n b : Nat} {p : Parser σ}

/-- A name or a literal is read by itself, and a number out of range is at fault. -/
theorem keeps_primary (hp : D.Before n b p) (hk : p.current.kind.NoCurly) :
    (primary : Phrase σ Expr).Ends p (fun _ => D.After n b) (D.Failed n b) := by
  have hafter := hp.pass hk
  simp only [primary, primaryAction, ends_bind, ends_current]
  split
  case h_2 hinteger =>
    split
    · exact hafter
    · exact hp.fault (.range hinteger)
  case h_6 => exact hp.fault .noPrefix
  all_goals exact hafter

section

variable {expr : Power → Phrase σ Expr} (h : D.Keeps expr)

include h

/-- An alternative is read after the block before it. -/
theorem keeps_alternative (hp : D.After n b p) :
    (alternative expr).Ends p (fun _ => D.After n b) (D.Failed n b) := by
  simp only [alternative, ends_bind, ends_peekIs]
  split
  · rename_i hk
    have helse : D.After n b p.advance := hp.onto (of_decide_eq_true hk) (by decide)
    simp only [ends_bind, ends_advance, ends_pure]
    exact helse.expect (by decide) fun hopen hq => keeps_block h hq hopen
  · exact hp

/-- Every prefix rule of Monkey goes from the first token of an expression to its last. -/
theorem keeps_applyPrefix {rule : PrefixRule} (hp : D.Before n b p)
    (hrule : p.grammar.prefixRule p.current.kind = some rule) :
    (applyPrefix expr rule).Ends p (fun _ => D.After n b) (D.Failed n b) := by
  rw [hp.grammar] at hrule
  have hkinds := Grammar.mem_kinds hrule
  -- only a hash starts with a bracket
  have hplain (hhash : rule ≠ .hash) : p.current.kind.NoCurly := by
    have hall : ∀ k ∈ rule.kinds, k.NoCurly := by cases rule <;> simp_all +decide
    exact hall _ hkinds
  cases rule with
  | primary => exact keeps_primary hp (hplain (by decide))
  | operator =>
    simp only [applyPrefix, prefixOperator, ends_bind, ends_current, ends_advance, ends_pure]
    exact h n b _ _ (hp.pass (hplain (by decide))).advance
  | grouping =>
    simp only [applyPrefix, grouping, ends_bind, ends_advance, ends_pure]
    refine (h n b _ _ (hp.pass (hplain (by decide))).advance).imp fun _ q hq => ?_
    exact hq.expectPlain (by decide) fun hr => hr
  | conditional =>
    simp only [applyPrefix, conditional, ends_bind, ends_current, ends_advance, ends_pure]
    refine (h n b _ _ (hp.pass (hplain (by decide))).advance).imp fun _ q hq => ?_
    refine hq.expect (by decide) fun hopen hr => ?_
    refine (keeps_block h hr hopen).imp fun _ s hs => ?_
    exact keeps_alternative h hs
  | function =>
    simp only [applyPrefix, function, ends_bind, ends_current, ends_pure]
    refine (keeps_parameters (hp.pass (hplain (by decide)))).imp fun _ q hq => ?_
    exact hq.expect (by decide) fun hopen hr => keeps_block h hr hopen
  | array =>
    simp only [applyPrefix, array, ends_bind, ends_current, ends_pure]
    exact keeps_expressions h _ (by decide) (hp.pass (hplain (by decide)))
  | hash =>
    simp only [applyPrefix, Parsing.hash, ends_bind, ends_current, ends_pure]
    exact keeps_pairs h hp (by simpa [PrefixRule.kinds] using hkinds)

/-- Every infix rule goes from its operator to the last token of what it reads. -/
theorem keeps_applyInfix {rule : InfixRule} {left : Expr} (hp : D.After n b p) :
    (applyInfix expr rule left).Ends p (fun _ => D.After n b) (D.Failed n b) := by
  cases rule with
  | binary =>
    simp only [applyInfix, binary, ends_bind, ends_current, ends_advance, ends_pure]
    exact h n b _ _ hp.advance
  | call =>
    simp only [applyInfix, call, ends_bind, ends_current, ends_pure]
    exact keeps_expressions h _ (by decide) hp
  | index =>
    simp only [applyInfix, index, ends_bind, ends_current, ends_advance, ends_pure]
    refine (h n b _ _ hp.advance).imp fun _ q hq => ?_
    exact hq.expectPlain (by decide) fun hr => hr

/-- An operand is read by its rule, and a token without one is at fault. -/
theorem keeps_operand (hp : D.Before n b p) :
    (operandAction expr).Ends p (fun _ => D.After n b) (D.Failed n b) := by
  rw [ends_iff]
  simp only [operandAction]
  split
  · rename_i rule hrule
    exact ends_iff.1 (keeps_applyPrefix h hp hrule)
  · have hfault : D.Failed n b (p.report p.noPrefix) := hp.fault .noPrefix
    exact ends_iff.1 ((ends_reject p _ _ Parser.noPrefix).2 hfault)

/-- An expression is an operand and what extends it, round by round. -/
theorem keeps_exprUnder (bp : Power) (hp : D.Before n b p) :
    (exprUnder expr bp).Ends p (fun _ => D.After n b) (D.Failed n b) := by
  simp only [exprUnder, ends_bind]
  refine (keeps_operand h hp).imp fun left q hq => ?_
  refine (ends_extend (I := fun _ => D.After n b) (B := D.Failed n b) ?_ left q hq).imp
    fun _ _ hr => hr.1
  intro left r rule hr hrule
  obtain ⟨power, hpower, -⟩ := infixRule_of_nextRule hrule
  rw [hr.grammar] at hpower
  have hplain : r.peek.kind.NoCurly := by
    constructor <;> intro hcurly <;> rw [hcurly] at hpower <;> cases hpower
  exact keeps_applyInfix h (hr.onto rfl hplain)

end

/-- **Every expression is read by the discipline,** by induction on the room: with none left, the
current token is where it is too deep. -/
theorem keeps_exprAt (D : Discipline σ) (room : Nat) : D.Keeps (exprAt room) := by
  induction room with
  | zero =>
    intro n b bp p hp
    exact (ends_reject ..).2 (hp.fault .tooDeep)
  | succ room ih =>
    intro n b bp p hp
    simp only [exprAt, ends_inExpr]
    have henter : D.Before n b p.enterExpr := hp.of_eq rfl rfl rfl hp.depth
    exact (keeps_exprUnder ih bp henter).mono
      (fun _ _ hq => hq.of_eq rfl rfl rfl hq.depth) fun _ hq => hq.of_eq rfl rfl rfl hq.depth

/-- **Expressions keep every discipline.** -/
theorem keeps_expression (D : Discipline σ) : D.Keeps expression := fun n b bp p =>
  keeps_exprAt D _ n b bp p

/-- **So does a program,** up to the end of the input. -/
theorem keeps_statements (hloose : D.Loose 0)
    (hresume : ∀ w es, D.failed 0 w es → D.before 0 w.advance es) (hp : D.Before 0 0 p) :
    D.Before 0 0 p.statements.2 := by
  refine Parser.statements_ind (R := fun p _ q => D.Before 0 0 p → D.Before 0 0 q) ?_ ?_ p hp
  · exact fun _ _ hp => hp
  intro p _
  rw [ends_iff]
  constructor
  · intro s q hrun ss r hr hp
    have hq := (keeps_statement (keeps_expression D) (.inl hloose) hp).of_some hrun
    exact hr hq.advance
  · intro q hrun ss r hr hp
    have hq := (keeps_statement (keeps_expression D) (.inl hloose) hp).of_none hrun
    exact hr ⟨hq.grammar, hq.depth, hresume _ _ hq.holds⟩

end Discipline
end MonkeySyntax
