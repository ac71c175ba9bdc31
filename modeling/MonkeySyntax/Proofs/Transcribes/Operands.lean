/-
# Operands stand where they were read

What a prefix rule reads is an operand, and so is what an infix rule reads together with the left
operand before it.  An operand stands at the rank of whatever comes next, because nothing looser was
taken into it (`OperandStands`).
-/

import MonkeySyntax.Proofs.Standard
import MonkeySyntax.Proofs.Transcribes.Statements

namespace MonkeySyntax
namespace Parsing

open MonkeySyntax.Action MonkeySyntax.Spelling

variable {σ : Type} [TokenSource σ] {room : Nat} {expr : Power → Phrase σ Expr}
  (h : Transcribes room expr)

include h

omit h in
/-- A further parameter adds a comma and a name to those that come after it. -/
theorem nextParameter_names (p : Parser σ) (hp : commaFollows p = true) :
    (nextParameter : Action σ Identifier).Ends p
      (fun n q => ∀ ns ts v, MoreNames ns ts → q.window.advance.Reads ts v →
        ∃ us, MoreNames (n :: ns) us ∧ p.window.advance.Reads us v)
      fun _ => True := by
  simp only [nextParameter, currentName, ends_bind, ends_advance, ends_expect, ends_current,
    ends_pure, imp_true_iff, and_true]
  intro hi ns ts v hns hr
  exact ⟨_, .cons (of_decide_eq_true hp) hi hns, .cons (.cons hr)⟩

omit h in
/-- Parameters are names between brackets. -/
theorem parameters_names (p : Parser σ) :
    (parameters : Action σ (List Identifier)).Ends p
      (fun ns q => p.peek.kind = .mark .openParen ∧ q.current.kind = .mark .closeParen ∧
        ∃ ts, Names ns ts ∧ p.window.advance.advance.Reads ts q.window)
      fun _ => True := by
  simp only [parameters, currentName, ends_bind, ends_expect, ends_peekIs, imp_true_iff, and_true]
  intro ho
  split
  · rename_i hc
    simp only [ends_bind, ends_advance, ends_pure]
    exact ⟨ho, of_decide_eq_true hc, [], .nil, .nil _⟩
  · simp only [ends_bind, ends_expect, ends_current, ends_pure, imp_true_iff, and_true]
    intro hi
    refine (ends_many (P := fun _ => True)
      (R := fun q ns r => ∃ ts, MoreNames ns ts ∧ q.window.advance.Reads ts r.window.advance)
      (B := fun _ _ => True) (fun q _ _ => ⟨[], .nil, .nil _⟩) ?_ p.advance.advance trivial).imp ?_
    · intro q _ hgo
      refine (nextParameter_names q hgo).imp ?_
      intro n r hn
      refine ⟨trivial, ?_, fun _ hs => hs⟩
      rintro ns s - ⟨ts, hns, hr⟩
      exact hn ns ts _ hns hr
    · rintro ns q ⟨ts, hns, hr⟩ hc
      exact ⟨ho, hc, _, .cons hi hns, .cons hr⟩

/-- `e` is written between `w` and the end of the current token of `q`, at rank `n` and below, and
at every rank that the next token may have. -/
def OperandStands (room n : Nat) (w : Window σ) (e : Expr) (q : Parser σ) : Prop :=
  ∀ m, m ≤ (q.grammar.power q.peek.kind).rank ∨ m ≤ n →
    (Form.expr m e).Stands room (q.errors ≠ []) w q.window.advance

omit h in
/-- What stands at every rank stands as an operand. -/
theorem OperandStands.of_forall {n : Nat} {w : Window σ} {e : Expr} {q : Parser σ}
    (h : ∀ m, (Form.expr m e).Stands room (q.errors ≠ []) w q.window.advance) :
    OperandStands room n w e q := fun m _ => h m

omit h in
/-- A name or a literal stands at every rank, as it is a single token. -/
theorem primary_stands (p : Parser σ) :
    (primary : Phrase σ Expr).Ends p
      (OperandStands (room + 1) Power.prefixed.rank p.window) fun _ => True := by
  have hone : ∀ {e}, (∀ m, Spells ⟨True, p.errors ≠ []⟩ (.expr m e) [p.current] 1) →
      OperandStands (room + 1) Power.prefixed.rank p.window e p := fun hs =>
    .of_forall fun m => ⟨[p.current], 1, .one _, by omega, hs m⟩
  simp only [primary, primaryAction, ends_bind, ends_current]
  split
  · rename_i ht
    exact hone fun _ => .identifier ht
  · rename_i ht
    split
    · rename_i v hv
      exact hone fun _ => .integer ht hv
    · exact trivial
  · rename_i ht
    exact hone fun _ => .string ht
  · rename_i ht
    exact hone fun _ => .boolean ht
  · rename_i ht
    exact hone fun _ => .boolean ht
  · exact trivial

/-- A prefix operator stands with its operand, which binds as tightly as it does. -/
theorem prefixOperator_stands (p : Parser σ) (hg : p.grammar = .standard)
    (hp : p.current.kind = .mark .not ∨ p.current.kind = .mark .dash) :
    (prefixOperator expr).Ends p (OperandStands (room + 1) Power.prefixed.rank p.window)
      fun _ => True := by
  simp only [prefixOperator, ends_bind, ends_current, ends_advance, ends_pure]
  refine (h.stands .prefixed p.advance hg).imp ?_
  rintro e q ⟨hpeek, he⟩ m hm
  obtain ⟨ts, d, hr, hd, hs⟩ := he Power.prefixed.rank (Nat.le_succ _) (Nat.le_refl _)
  refine ⟨_, d + 1, .cons hr, by omega, .prefixOp hp ?_ hs⟩
  exact hm.elim (fun hm => Nat.le_trans hm hpeek) fun hm => hm

/-- A group stands with its brackets, and is the expression between them. -/
theorem grouping_stands (p : Parser σ) (hg : p.grammar = .standard)
    (hp : p.current.kind = .mark .openParen) :
    (grouping expr).Ends p (OperandStands (room + 1) Power.prefixed.rank p.window)
      fun _ => True := by
  simp only [grouping, ends_bind, ends_advance, ends_expect, ends_pure, imp_true_iff, and_true]
  refine (h.lowest p.advance hg).imp ?_
  rintro e q ⟨-, ts, d, hr, hd, hs⟩ hc
  exact .of_forall fun m =>
    ⟨_, d + 1, .cons (hr.append (.one _)), by omega, .grouped hp hc hs⟩

/-- A block after `else`, or nothing. -/
theorem alternative_stands (p : Parser σ) (hg : p.grammar = .standard) :
    (alternative expr).Ends p
      (fun b q => p.Leads q ∧
        ((b = none ∧ q = p) ∨ ∃ a, b = some a ∧ p.peek.kind = .keyword .elseWord ∧
          (Form.block a).Stands room (q.errors ≠ []) p.window.advance.advance q.window.advance))
      fun _ => True := by
  simp only [alternative, ends_bind, ends_peekIs]
  split
  · rename_i ho
    simp only [ends_bind, ends_advance, ends_expect, ends_pure, imp_true_iff, and_true]
    intro hb
    refine (block_stands h p.advance.advance hg hb).imp ?_
    rintro a q ⟨hl, ha⟩
    exact ⟨((Parser.Leads.advance p).trans (.advance _)).trans hl,
      .inr ⟨a, rfl, of_decide_eq_true ho, ha⟩⟩
  · exact (ends_pure ..).2 ⟨.refl p, .inl ⟨rfl, rfl⟩⟩

/-- A conditional stands up to its block, or to that of its alternative. -/
theorem conditional_stands (p : Parser σ) (hg : p.grammar = .standard)
    (hp : p.current.kind = .keyword .ifWord) :
    (conditional expr).Ends p (OperandStands (room + 1) Power.prefixed.rank p.window)
      fun _ => True := by
  simp only [conditional, ends_bind, ends_current, ends_advance, ends_expect, ends_pure,
    imp_true_iff, and_true]
  refine (h.lowest p.advance hg).imp ?_
  rintro e q ⟨hlq, he⟩ hb
  have hgq := hlq.grammar.trans hg
  refine (block_stands h q.advance hgq hb).imp ?_
  rintro b r ⟨hlr, hblock⟩
  refine (alternative_stands h r (hlr.grammar.trans hgq)).imp ?_
  rintro a s ⟨hls, ha⟩
  refine .of_forall fun m => ?_
  have herr : q.errors ≠ [] → s.errors ≠ [] := fun hq =>
    hls.errors_ne_nil (hlr.errors_ne_nil hq)
  obtain ⟨ts, d, ht, hd, hs⟩ := he.mono herr
  obtain ⟨us, d', hu, hd', hs'⟩ := hblock.mono hls.errors_ne_nil
  rcases ha with ⟨rfl, rfl⟩ | ⟨a, rfl, ho, vs, d'', hv, hd'', hs''⟩
  · exact ⟨_, max d d' + 1, .cons (ht.append hu), by omega, .conditional hp hs hs'⟩
  · exact ⟨_, max d (max d' d'') + 1, .cons (ht.append (hu.append (.cons hv))), by omega,
      .alternative hp ho hs hs' hs''⟩

/-- A function stands up to the end of its block. -/
theorem function_stands (p : Parser σ) (hg : p.grammar = .standard)
    (hp : p.current.kind = .keyword .fnWord) :
    (function expr).Ends p (OperandStands (room + 1) Power.prefixed.rank p.window)
      fun _ => True := by
  simp only [function, ends_bind, ends_current, ends_expect, ends_pure, imp_true_iff, and_true]
  refine ((Law.frame.follows_parameters p).and (parameters_names p)).mono ?_ fun _ _ => trivial
  rintro ns q ⟨hl, ho, hc, ts, hns, hr⟩ hb
  refine (block_stands h q.advance (hl.grammar.trans hg) hb).imp ?_
  rintro b r ⟨-, us, d, hu, hd, hs⟩
  exact .of_forall fun m =>
    ⟨_, d + 1, .cons (.cons (hr.append (.cons hu))), by omega, .function hp ho hc hns hs⟩

/-- **An operand stands where it was read,** by whichever prefix rule. -/
theorem applyPrefix_stands {rule : PrefixRule} (p : Parser σ) (hg : p.grammar = .standard)
    (hp : Grammar.standard.prefixRule p.current.kind = some rule) :
    (applyPrefix expr rule).Ends p (OperandStands (room + 1) Power.prefixed.rank p.window)
      fun _ => True := by
  have hk := Grammar.mem_kinds hp
  cases rule with
  | primary => exact primary_stands p
  | operator => exact prefixOperator_stands h p hg (by simpa [PrefixRule.kinds] using hk)
  | grouping => exact grouping_stands h p hg (by simpa [PrefixRule.kinds] using hk)
  | conditional => exact conditional_stands h p hg (by simpa [PrefixRule.kinds] using hk)
  | function => exact function_stands h p hg (by simpa [PrefixRule.kinds] using hk)
  | array =>
    simp only [applyPrefix, array, ends_bind, ends_current, ends_pure]
    refine (expressions_stand h .closeBracket p hg).imp ?_
    rintro es q ⟨hc, ts, d, hr, hd, hs⟩
    exact .of_forall fun m => ⟨_, d + 1, .cons (hr.append (.one _)), by omega,
      .array (by simpa [PrefixRule.kinds] using hk) hc hs⟩
  | hash =>
    simp only [applyPrefix, hash, ends_bind, ends_current, ends_pure]
    refine (pairs_stand h p hg).imp ?_
    rintro ps q ⟨hc, ts, d, hr, hd, hs⟩
    exact .of_forall fun m => ⟨_, d + 1, .cons (hr.append (.one _)), by omega,
      .hash (by simpa [PrefixRule.kinds] using hk) hc hs⟩

/-- An infix rule at the current token goes on from a left operand that stands at its rank. -/
theorem applyInfix_stands {rule : InfixRule} {q : Power} {left : Expr} {w : Window σ}
    (p : Parser σ) (hg : p.grammar = .standard)
    (hp : Grammar.standard.infixRule p.current.kind = some (q, rule))
    (hleft : (Form.expr q.rank left).Stands (room + 1) (p.errors ≠ []) w p.window) :
    (applyInfix expr rule left).Ends p (OperandStands (room + 1) q.rank w) fun _ => True := by
  cases rule with
  | binary =>
    have hpower : p.grammar.power p.current.kind = q := by
      rw [hg]
      exact Grammar.power_of_infixRule hp
    have hq := (Grammar.rank_of_binary hp).2
    simp only [applyInfix, binary, ends_bind, ends_current, ends_advance, ends_pure]
    show ((expr (p.grammar.power p.current.kind)).toAction).Ends p.advance _ _
    rw [hpower]
    refine ((h.frame q p.advance).and (h.stands q p.advance hg)).mono ?_ fun _ _ => trivial
    rintro e r ⟨hl, hpeek, he⟩ m hm
    obtain ⟨ls, d, hlr, hd, hs⟩ := hleft.mono hl.errors_ne_nil
    obtain ⟨rs, d', hr, hd', hs'⟩ := he (q.rank + 1) (Nat.le_refl _) (by omega)
    refine ⟨_, max d (d' + 1), hlr.append (.cons hr), by omega, .infixOp hp ?_ hs hs'⟩
    exact hm.elim (fun hm => Nat.le_trans hm hpeek) fun hm => hm
  | call =>
    obtain ⟨ho, rfl⟩ := Grammar.kind_of_call hp
    simp only [applyInfix, call, ends_bind, ends_current, ends_pure]
    refine ((Law.follows_expressions h.frame _ p).and
      (expressions_stand h .closeParen p hg)).mono ?_ fun _ _ => trivial
    rintro es r ⟨hl, hc, ts, d', hr, hd', hs'⟩
    obtain ⟨ls, d, hlr, hd, hs⟩ := hleft.mono hl.errors_ne_nil
    exact .of_forall fun m => ⟨_, max d (d' + 1), hlr.append (.cons (hr.append (.one _))), by omega,
      .call ho hc hs hs'⟩
  | index =>
    obtain ⟨ho, rfl⟩ := Grammar.kind_of_index hp
    simp only [applyInfix, index, ends_bind, ends_current, ends_advance, ends_expect, ends_pure,
      imp_true_iff, and_true]
    refine (h.lowest p.advance hg).imp ?_
    rintro i r ⟨hl, ts, d', hr, hd', hs'⟩ hc
    obtain ⟨ls, d, hlr, hd, hs⟩ := hleft.mono hl.errors_ne_nil
    exact .of_forall fun m => ⟨_, max d (d' + 1), hlr.append (.cons (hr.append (.one _))), by omega,
      .index ho hc hs hs'⟩

end Parsing
end MonkeySyntax
