/-
# What was read is a spelling of what was returned

If a reader of expressions transcribes with some room, so does every rule of the grammar that reads
by it, and an expression made of them takes one level more.  By induction on the room every
expression is written where it was read.

| read | written |
| --- | --- |
| the right operand of an operator of power `q` | at rank `q + 1` |
| the operand of a prefix operator | at the rank of prefixes |
| a left operand, before an operator of power `q` | at rank `q` |
| whatever stands between brackets or keywords | at rank 0 |

The loop over infix rules keeps more than its result says: what was read so far is written at the
rank of whatever comes next.

A statement that was dropped is junk in the spelling, and there is an error for it, so a parse
without errors has no junk (`spells_of_parse_clean`).
-/

import MonkeySyntax.Proofs.Completeness
import MonkeySyntax.Proofs.Transcribes.Operands

namespace MonkeySyntax

open MonkeySyntax.Action

namespace Parsing

variable {σ : Type} [TokenSource σ]

/-- **Powers and ranks agree:** what is read at the power `bp` stands at the rank above it, and what
follows binds no more tightly. -/
theorem exprUnder_stands {room : Nat} {expr : Power → Phrase σ Expr} (h : Transcribes room expr)
    (bp : Power) (p : Parser σ) (hg : p.grammar = .standard) :
    (exprUnder expr bp).Ends p
      (fun e q => (q.grammar.power q.peek.kind).rank ≤ bp.rank ∧
        ∀ n, n ≤ bp.rank + 1 → n ≤ Power.prefixed.rank →
          (Form.expr n e).Stands (room + 1) (q.errors ≠ []) p.window q.window.advance)
      fun _ => True := by
  have hoperand : (operandAction expr).Ends p
      (OperandStands (room + 1) Power.prefixed.rank p.window) fun _ => True := by
    rw [ends_iff]
    simp only [operandAction, hg]
    split
    · rename_i rule hrule
      exact ends_iff.1 (applyPrefix_stands h p hg hrule)
    · simp
  have hframe : Law.frame.Follows (operandAction expr) := Law.follows_operandAction h.frame
  simp only [exprUnder, ends_bind]
  refine ((hframe p).and hoperand).mono ?_ fun _ _ => trivial
  rintro left q ⟨hl, hleft⟩
  -- the invariant of the loop: what was read so far stands at the rank of the next operator
  refine (ends_extend (I := fun left q => p.Leads q ∧ ∀ n,
      (n ≤ (q.grammar.power q.peek.kind).rank ∨ n ≤ bp.rank + 1 ∧ n ≤ Power.prefixed.rank) →
        (Form.expr n left).Stands (room + 1) (q.errors ≠ []) p.window q.window.advance)
      (B := fun _ => True) ?_ left q ⟨hl, fun n hn => hleft n (hn.imp_right And.right)⟩).imp ?_
  · rintro left q rule ⟨hl, hleft⟩ hrule
    obtain ⟨pw, hpw, hlt⟩ := infixRule_of_nextRule hrule
    have hgq := hl.grammar.trans hg
    have hpower := Grammar.power_of_infixRule hpw
    refine ((Law.follows_applyInfix h.frame rule left q.advance).and
      (applyInfix_stands h q.advance hgq (hgq ▸ hpw)
        (hleft pw.rank (.inl (Nat.le_of_eq (congrArg Power.rank hpower.symm)))))).mono ?_
          fun _ _ => trivial
    rintro e r ⟨hlr, he⟩
    refine ⟨(hl.trans (.advance q)).trans hlr, fun n hn => he n (hn.imp_right fun hn => ?_)⟩
    exact Nat.le_trans hn.1 hlt
  · rintro e q ⟨⟨hl, he⟩, hnext⟩
    exact ⟨rank_le_of_nextRule (hl.grammar.trans hg) hnext, fun n hn hn' => he n (.inr ⟨hn, hn'⟩)⟩

/-- **Whatever is read with room for `room` expressions is written there.** -/
theorem transcribes_exprAt (room : Nat) :
    Transcribes room (exprAt room : Power → Phrase σ Expr) := by
  induction room with
  | zero => exact ⟨Law.frame.follows_exprAt 0, fun _ _ _ => trivial⟩
  | succ room ih =>
    refine ⟨Law.frame.follows_exprAt (room + 1), fun bp p hg => ?_⟩
    simp only [exprAt, ends_inExpr]
    exact exprUnder_stands ih bp p.enterExpr hg

/-- **Expressions are written where they are read,** at whatever depth: the room that they get is
within the limit. -/
theorem transcribes_expression : Transcribes nestingLimit (expression : Power → Phrase σ Expr) := by
  refine ⟨Law.frame.follows_expression, fun bp p hg => ?_⟩
  refine ((transcribes_exprAt (nestingLimit - p.exprDepth)).stands bp p hg).imp ?_
  rintro e q ⟨hpeek, he⟩
  refine ⟨hpeek, fun n hn hn' => ?_⟩
  obtain ⟨ts, d, hr, hd, hs⟩ := he n hn hn'
  exact ⟨ts, d, hr, by omega, hs⟩

/-- **A program is written between the window it is read from and the end of the input,** with the
statements that were dropped as junk. -/
theorem statements_stand (p : Parser σ) (hg : p.grammar = .standard) :
    p.statements.2.current.kind = .eof ∧
      (Form.body p.statements.1).Stands nestingLimit (p.statements.2.errors ≠ []) p.window
        p.statements.2.window := by
  have hmain := Parser.statements_ind (R := fun (p : Parser σ) ss q => p.grammar = .standard →
      p.Leads q ∧ q.current.kind = .eof ∧
        (Form.body ss).Stands nestingLimit (q.errors ≠ []) p.window q.window) ?_ ?_ p hg
  · exact hmain.2
  · exact fun p he _ => ⟨.refl p, he, [], 0, .nil _, Nat.zero_le _, .noStmts⟩
  · intro p _
    rw [ends_iff]
    refine ⟨fun s q hr ss r hs hg => ?_, fun q hr ss r hs hg => ?_⟩
    · obtain ⟨hl, hs'⟩ := (statement_stands transcribes_expression p hg).of_some hr
      obtain ⟨hlr, he, hb⟩ := hs (hl.grammar.trans hg)
      refine ⟨(hl.trans (.advance q)).trans hlr, he, hs' ss _ _ (fun hq => ?_) hb⟩
      exact hlr.errors_ne_nil hq
    · obtain ⟨hl, hne⟩ := (statement_stands transcribes_expression p hg).of_none hr
      obtain ⟨hlr, he, us, d, hu, hd, hb⟩ := hs (hl.grammar.trans hg)
      have hlq := hl.trans (.advance q)
      obtain ⟨ts, ht⟩ := Window.Reads.of_onward hlq.window
      exact ⟨hlq.trans hlr, he, ts ++ us, d, ht.append hu, hd, .junk (hlr.errors_ne_nil hne) hb⟩

end Parsing

/-- **A clean parse read what it returned.**  If a list of tokens whose only end of input is the
last one is parsed without an error, then the tokens before it are a spelling of the program, each
of them in its place and none left over, and expressions nest within the limit in it. -/
theorem spells_of_parse_clean {ts : List Token} {final : Token} (hfinal : final.kind = .eof)
    (hts : ∀ t ∈ ts, t.kind ≠ .eof) (hclean : (parse (ts ++ [final])).2.errors = []) :
    ∃ d ≤ nestingLimit, Spells ⟨True, False⟩ (.body (parse (ts ++ [final])).1.body) ts d := by
  obtain ⟨he, hstand⟩ :=
    Parsing.statements_stand (Parser.start (Stream.ofList (ts ++ [final]))) rfl
  obtain ⟨us, d, hr, hd, hs⟩ := hstand.mono (k := False) fun hj => hj hclean
  obtain ⟨v, hv, hvk⟩ := Window.reads_start ts hfinal
  obtain rfl := hr.unique hv he hvk (hs.ne_eof fun hj => hj) hts
  exact ⟨d, hd, hs⟩

/-- The tokens of `let y = (-x)();`, none of them placed in a text. -/
def callOfGroup : List Token :=
  [⟨.keyword .letWord, "let", .null⟩, ⟨.identifier, "y", .null⟩, ⟨.mark .assign, "=", .null⟩,
    ⟨.mark .openParen, "(", .null⟩, ⟨.mark .dash, "-", .null⟩, ⟨.identifier, "x", .null⟩,
    ⟨.mark .closeParen, ")", .null⟩, ⟨.mark .openParen, "(", .null⟩,
    ⟨.mark .closeParen, ")", .null⟩, ⟨.mark .semicolon, ";", .null⟩]

/-- The hypotheses of `spells_of_parse_clean` are satisfiable by a text with brackets of two sorts:
`let y = (-x)();` has no error, and is a spelling of the program that is read. -/
theorem spells_callOfGroup :
    (parse (callOfGroup ++ [.eof .null])).2.errors = [] ∧
      ∃ d ≤ nestingLimit, Spells ⟨True, False⟩
        (.body (parse (callOfGroup ++ [.eof .null])).1.body) callOfGroup d := by
  -- the tokens are a spelling, so reading them leaves no error
  have hcall := Spells.call (L := ⟨False, False⟩) (n := 0) (o := ⟨.mark .openParen, "(", .null⟩)
    (c := ⟨.mark .closeParen, ")", .null⟩) rfl rfl
    (.grouped (o := ⟨.mark .openParen, "(", .null⟩) (c := ⟨.mark .closeParen, ")", .null⟩) rfl rfl
      (.prefixOp (t := ⟨.mark .dash, "-", .null⟩) (.inr rfl) (Nat.zero_le _)
        (.identifier (t := ⟨.identifier, "x", .null⟩) rfl))) .noExprs
  have hspelt : Spells ⟨False, False⟩ (.body _) callOfGroup _ :=
    .stmts (.letBinding rfl rfl rfl hcall) (.semicolon rfl) .noStmts
  have hfinal : (Token.eof .null).kind = .eof := rfl
  obtain ⟨u, hr, hu⟩ := Window.reads_start callOfGroup hfinal
  have hclean : (parse (callOfGroup ++ [.eof .null])).2.errors = [] :=
    ((statements_of_spells hspelt _ u rfl rfl hr hu).1 (by decide)).2
  exact ⟨hclean, spells_of_parse_clean hfinal (by decide) hclean⟩

end MonkeySyntax
