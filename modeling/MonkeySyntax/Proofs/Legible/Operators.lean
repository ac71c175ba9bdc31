/-
# Operands and operators are legible

A name or a literal, an operator before or between operands, brackets around an expression or
after one.

The operand of a prefix operator and the right one of an infix operator are read by calls of their
own, a level deeper.  The left one is read by the call that goes on with the operator
(`legible_infix`), so it is on the same level.
-/

import MonkeySyntax.Proofs.Legible

namespace MonkeySyntax

open MonkeySyntax.Action MonkeySyntax.Parsing MonkeySyntax.Window

variable {σ : Type} [TokenSource σ] {n d d' : Nat} {ts us : List Token}

/-- A prefix operator is read with its operand, which nests one deeper. -/
theorem legible_prefixOp {t : Token} {e : Expr} (ht : t.kind = .mark .not ∨ t.kind = .mark .dash)
    (hn : n ≤ Power.prefixed.rank) (h : (Form.expr Power.prefixed.rank e).Spelt σ ts d) :
    (Form.expr n (.prefixOp t t.value e)).Legible σ (t :: ts) (d + 1) := by
  have hrule : Grammar.standard.prefixRule t.kind = some .operator := by
    rcases ht with ht | ht <;> rw [ht] <;> rfl
  refine legible_operand rfl hrule fun room p u hg hreads hu => ?_
  obtain ⟨rfl, hts⟩ := reads_cons_iff.1 hreads
  have he : (exprAt room .prefixed).Delivers (d ≤ room) p.advance e u.Behind :=
    h.delivers hg hts (hu.mono hn) Power.takes_prefixed (hu.mono hn).rank_le
  simp only [applyPrefix, prefixOperator, delivers_current_bind, delivers_advance_bind]
  exact he.map _ (by omega)

/-- An expression in brackets is read at any level, and nests one deeper. -/
theorem legible_grouped {o c : Token} {e : Expr} (ho : o.kind = .mark .openParen)
    (hc : c.kind = .mark .closeParen) (h : (Form.expr 0 e).Spelt σ ts d) :
    (Form.expr n e).Legible σ (o :: (ts ++ [c])) (d + 1) := by
  refine legible_operand ho rfl fun room p u hg hreads _ => ?_
  obtain ⟨rfl, m, hts, rfl, rfl⟩ := reads_between_iff.1 hreads
  simp only [applyPrefix, grouping, delivers_advance_bind]
  refine h.bind_expect hg hts hc (.mark rfl) (fun q _ hq => delivers_pure trivial ?_)
    (fun _ => Law.follows_pure _) (by simp)
  rw [hq, Behind]

/-- An array is read from its bracket to the closing one. -/
theorem legible_array {o c : Token} {es : List Expr} (ho : o.kind = .mark .openBracket)
    (hc : c.kind = .mark .closeBracket) (h : (Form.exprs es).Legible σ ts d) :
    (Form.expr n (.array o es)).Legible σ (o :: (ts ++ [c])) (d + 1) := by
  refine legible_operand ho rfl fun room p u hg hreads _ => ?_
  obtain ⟨rfl, m, hts, rfl, rfl⟩ := reads_between_iff.1 hreads
  simp only [applyPrefix, array, delivers_current_bind]
  refine ((h room .closeBracket p m hg hts (.inr rfl) hc).map _ ?_).mono Iff.rfl fun w hw => ?_
  · omega
  · rw [hw, Behind]

/-- A hash is read from its bracket to the closing one. -/
theorem legible_hash {o c : Token} {ps : List (Expr × Expr)} (ho : o.kind = .mark .openCurly)
    (hc : c.kind = .mark .closeCurly) (h : (Form.pairs ps).Legible σ ts d) :
    (Form.expr n (.hash o ps)).Legible σ (o :: (ts ++ [c])) (d + 1) := by
  refine legible_operand ho rfl fun room p u hg hreads _ => ?_
  obtain ⟨rfl, m, hts, rfl, rfl⟩ := reads_between_iff.1 hreads
  have hpairs : (pairs (exprAt room)).Delivers (d ≤ room) p ps m.advance.Behind := by
    refine (h room p m hg hts hc).andThen (fun q _ hq => ?_)
      (fun _ => (Law.follows_expect _).bind fun _ => Law.follows_pure _) Iff.rfl
    refine delivers_expect_bind (hq.peek_kind hc) (delivers_pure trivial ?_)
    rw [Parser.window_advance, hq, Behind]
  simp only [applyPrefix, Parsing.hash, delivers_current_bind]
  exact hpairs.map _ (by omega)

/-- A left operand and what follows it are legible if the rule of the operator reads on from it. -/
theorem legible_infix {rule : InfixRule} {q : Power} {k : Kind} {t : Token} {left e : Expr}
    (ht : t.kind = k) (hk : Grammar.standard.infixRule k = some (q, rule))
    (hleft : (Form.expr q.rank left).Legible σ ts d)
    (hbp : ∀ bp : Power, bp.Takes n → bp.Takes q.rank ∧ bp < q)
    (h : ∀ room (p : Parser σ) u, p.grammar = .standard → p.window.Reads (t :: us) u →
      u.current.kind.MayFollow n →
        (applyInfix (exprAt room) rule left).Delivers (d' ≤ room) p e u.Behind) :
    (Form.expr n e).Legible σ (ts ++ t :: us) (max d (d' + 1)) := by
  intro room bp p u hg hreads hu hn
  obtain ⟨m, hts, hrest⟩ := reads_append_iff.1 hreads
  have hcurrent : m.current.kind = k := by rw [(reads_cons_iff.1 hrest).1, ht]
  have hfollow : k.MayFollow q.rank := by
    refine ⟨Nat.le_of_eq (congrArg Power.rank (Grammar.power_of_infixRule hk)), fun helse => ?_⟩
    rw [helse] at hk
    cases hk
  rw [← hcurrent] at hfollow hk
  refine (hleft room bp p m hg hts hfollow (hbp bp hn).1).extend (Law.frame.follows_exprAt room) hg
    hk (hbp bp hn).2 (fun r hr hm => ?_) (by omega : _ ↔ d ≤ room + 1 ∧ d' ≤ room)
  exact h room r u hr (hm ▸ hrest) hu

/-- A binary operator is read with its right operand, which nests one deeper, while the left one is
read before it at the same depth. -/
theorem legible_infixOp {q : Power} {t : Token} {l r : Expr}
    (ht : Grammar.standard.infixRule t.kind = some (q, .binary)) (hn : n ≤ q.rank)
    (hl : (Form.expr q.rank l).Legible σ ts d)
    (hr : (Form.expr (q.rank + 1) r).Spelt σ us d') :
    (Form.expr n (.infixOp t l t.value r)).Legible σ (ts ++ t :: us) (max d (d' + 1)) := by
  refine legible_infix rfl ht hl (fun bp hbp => ⟨hbp.mono hn, hbp.lt_binary _ _ ht hn⟩) ?_
  intro room p u hg hreads hu
  obtain ⟨rfl, hus⟩ := reads_cons_iff.1 hreads
  have hpower : p.grammar.power p.current.kind = q := by
    rw [hg]
    exact Grammar.power_of_infixRule ht
  have hright : (exprAt room q).Delivers (d' ≤ room) p.advance r u.Behind :=
    hr.delivers hg hus (hu.mono (Nat.le_succ_of_le hn)) (Power.takes_right ht) (hu.mono hn).rank_le
  simp only [applyInfix, binary, delivers_current_bind, delivers_currentPower_bind,
    delivers_advance_bind]
  rw [hpower]
  exact hright.map _ Iff.rfl

/-- A call is read after its callee, from bracket to bracket. -/
theorem legible_call {o c : Token} {f : Expr} {es : List Expr} (ho : o.kind = .mark .openParen)
    (hc : c.kind = .mark .closeParen) (hf : (Form.expr Power.call.rank f).Legible σ ts d)
    (hes : (Form.exprs es).Legible σ us d') :
    (Form.expr n (.call o f es)).Legible σ (ts ++ o :: (us ++ [c])) (max d (d' + 1)) := by
  refine legible_infix ho rfl hf (fun bp hbp => hbp.tight (by decide)) ?_
  intro room p u hg hreads _
  obtain ⟨rfl, m, hus, rfl, rfl⟩ := reads_between_iff.1 hreads
  simp only [applyInfix, call, delivers_current_bind]
  refine ((hes room .closeParen p m hg hus (.inl rfl) hc).map _ Iff.rfl).mono Iff.rfl fun w hw => ?_
  rw [hw, Behind]

/-- An index is read after what it is into, from bracket to bracket. -/
theorem legible_index {o c : Token} {l i : Expr} (ho : o.kind = .mark .openBracket)
    (hc : c.kind = .mark .closeBracket) (hl : (Form.expr Power.index.rank l).Legible σ ts d)
    (hi : (Form.expr 0 i).Spelt σ us d') :
    (Form.expr n (.index o l i)).Legible σ (ts ++ o :: (us ++ [c])) (max d (d' + 1)) := by
  refine legible_infix ho rfl hl (fun bp hbp => hbp.tight (by decide)) ?_
  intro room p u hg hreads _
  obtain ⟨rfl, m, hus, rfl, rfl⟩ := reads_between_iff.1 hreads
  simp only [applyInfix, index, delivers_current_bind, delivers_advance_bind]
  refine hi.bind_expect hg hus hc (.mark rfl) (fun q _ hq => delivers_pure trivial ?_)
    (fun _ => Law.follows_pure _) (by simp)
  rw [hq, Behind]

/-- A name or a literal is its own spelling. -/
theorem legible_primary {t : Token} {e : Expr}
    (ht : Grammar.standard.prefixRule t.kind = some .primary)
    (h : ∀ p : Parser σ, p.current = t → (primary : Phrase σ Expr).run p = (some e, p)) :
    (Form.expr n e).Legible σ [t] 1 := by
  refine legible_operand rfl ht fun room p u _ hreads _ => ?_
  obtain ⟨ht, hu⟩ := reads_cons_iff.1 hreads
  constructor
  · exact fun _ => ⟨p, h p ht, .refl p, (reads_nil_iff.1 hu).symm⟩
  · intro hroom
    omega

end MonkeySyntax
