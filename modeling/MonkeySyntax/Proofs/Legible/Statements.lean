/-
# Statements and blocks are legible

Every statement ends in a `;`, which is read with it.  In a block the statement after it begins one
token further on, and the block ends where a `}` is in that place.
-/

import MonkeySyntax.Proofs.Legible

namespace MonkeySyntax

open MonkeySyntax.Action MonkeySyntax.Parsing MonkeySyntax.Window

variable {σ : Type} [TokenSource σ] {d d' : Nat} {ts us : List Token}

/-- A binding is read from `let` to the end of its value. -/
theorem legible_letBinding {t i a : Token} {e : Expr} (ht : t.kind = .keyword .letWord)
    (hi : i.kind = .identifier) (ha : a.kind = .mark .assign) (he : (Form.expr 0 e).Spelt σ ts d) :
    (Form.stmt (.letBinding t (nameOf i) e)).Legible σ (t :: i :: a :: ts) d := by
  intro room p u hg hreads hu
  obtain ⟨rfl, hname⟩ := reads_cons_iff.1 hreads
  obtain ⟨rfl, hassign⟩ := reads_cons_iff.1 hname
  obtain ⟨rfl, hts⟩ := reads_cons_iff.1 hassign
  have hkind : p.current.kind = .keyword .letWord := ht
  have hvalue : (exprAt room .lowest).Delivers (d ≤ room) p.advance.advance.advance e u.Behind :=
    he.lowest hg hts (hu ▸ .mark rfl)
  simp only [anyStatement, letStatement, delivers_current_bind, hkind]
  refine delivers_expect_bind hi ?_
  rw [delivers_currentName_bind]
  refine delivers_expect_bind ha ?_
  rw [delivers_advance_bind]
  exact (hvalue.thenSemicolon hu).map _ Iff.rfl

/-- A `return` without a value is read by itself, before `;`, `}` or the end of the input. -/
theorem legible_bareReturn {t : Token} (ht : t.kind = .keyword .returnWord) :
    (Form.stmt (.returnValue t none)).Legible σ [t] 0 := by
  intro room p u _ hreads hu
  obtain ⟨rfl, hr⟩ := reads_cons_iff.1 hreads
  obtain rfl := reads_nil_iff.1 hr
  have hkind : p.current.kind = .keyword .returnWord := ht
  have hpeek : p.peek.kind = .mark .semicolon := hu
  simp only [anyStatement, returnStatement, delivers_current_bind, hkind, delivers_peekIs_bind]
  rw [if_pos (decide_eq_true hpeek), delivers_advance_bind]
  exact delivers_pure (Nat.zero_le _) rfl

/-- A `return` is read to the end of its value. -/
theorem legible_returnValue {t : Token} {e : Expr} (ht : t.kind = .keyword .returnWord)
    (he : (Form.expr 0 e).Spelt σ ts d) :
    (Form.stmt (.returnValue t (some e))).Legible σ (t :: ts) d := by
  intro room p u hg hreads hu
  obtain ⟨rfl, hts⟩ := reads_cons_iff.1 hreads
  have hkind : p.current.kind = .keyword .returnWord := ht
  have hvalue : (exprAt room .lowest).Delivers (d ≤ room) p.advance e u.Behind :=
    he.lowest hg hts (hu ▸ .mark rfl)
  have hpeek : ∀ k, Grammar.standard.prefixRule k = none →
      ¬ decide (p.peek.kind = k) = true := by
    obtain ⟨t, ts, rule, rfl, hrule⟩ := he.spells.exists_head
    intro k hk
    rw [show p.peek = t from (reads_cons_iff.1 hts).1, decide_eq_true_iff]
    rintro rfl
    rw [hk] at hrule
    cases hrule
  simp only [anyStatement, returnStatement, delivers_current_bind, hkind, delivers_peekIs_bind]
  rw [if_neg (hpeek _ rfl), delivers_peekIs_bind, if_neg (hpeek _ rfl), delivers_peekIs_bind,
    if_neg (hpeek _ rfl), delivers_advance_bind]
  exact (hvalue.thenSemicolon hu).map _ Iff.rfl

/-- What starts like an expression is read as an expression statement. -/
theorem expression_delivers {room : Nat} {t : Token} {e : Expr} {fits : Prop} {p : Parser σ}
    {stop : Window σ → Prop} (he : Spells ⟨False, False⟩ (.expr 0 e) (t :: ts) d)
    (ht : p.current = t)
    (h : (thenSemicolon (exprAt room .lowest).toAction).Delivers fits p e stop) :
    (anyStatement (exprAt room)).Delivers fits p (.expression t e) stop := by
  obtain ⟨t, us, rule, hts, hrule⟩ := he.exists_head
  obtain ⟨rfl, rfl⟩ := List.cons.inj hts
  subst ht
  have hkind : ∀ k, Grammar.standard.prefixRule k = none → p.current.kind ≠ k := by
    rintro k hk rfl
    rw [hrule] at hk
    cases hk
  simp only [anyStatement, delivers_current_bind]
  split
  · rename_i hlet
    exact absurd hlet (hkind _ rfl)
  · rename_i hreturn
    exact absurd hreturn (hkind _ rfl)
  · simp only [expressionStatement, delivers_current_bind]
    exact h.map _ Iff.rfl

/-- An expression alone is read as a statement, up to what ends it. -/
theorem legible_expression {t : Token} {e : Expr} (he : (Form.expr 0 e).Spelt σ (t :: ts) d) :
    (Form.stmt (.expression t e)).Legible σ (t :: ts) d := by
  intro room p u hg hreads hu
  have hvalue : (exprAt room .lowest).Delivers (d ≤ room) p e u.Behind :=
    he.lowest hg hreads (hu ▸ .mark rfl)
  exact expression_delivers he.spells (reads_cons_iff.1 hreads).1 (hvalue.thenSemicolon hu)

/-- No statements are read where a block ends. -/
theorem legible_noStmts : (Form.body []).Legible σ [] 0 := by
  intro room p u _ hr hu
  obtain rfl := reads_nil_iff.1 hr
  have hcurrent : p.current.kind = .mark .closeCurly := hu
  exact delivers_many_nil (by simp [inBody, hcurrent]) (Nat.zero_le _) rfl

/-- A statement is read with the `;` after it, and then the others. -/
theorem legible_stmts {m : Token} {s : Stmt} {ss : List Stmt} (hm : m.kind = .mark .semicolon)
    (hs : (Form.stmt s).Spelt σ ts d) (hss : (Form.body ss).Legible σ us d') :
    (Form.body (s :: ss)).Legible σ (ts ++ m :: us) (max d d') := by
  intro room p u hg hreads hu
  obtain ⟨w, hts, hrest⟩ := reads_append_iff.1 hreads
  obtain ⟨rfl, hus⟩ := reads_cons_iff.1 hrest
  have hlaw := Law.frame.follows_exprAt (σ := σ) room
  have hgo : inBody p = true ∧ p.current.kind ≠ .eof := by
    obtain ⟨t, ts, rfl, hclose, heof⟩ := hs.spells.exists_head_stmt
    have hcurrent : p.current = t := (reads_cons_iff.1 hts).1
    exact ⟨decide_eq_true (hcurrent ▸ hclose), hcurrent ▸ heof⟩
  have hstmt : (statement (exprAt room)).Delivers (d ≤ room) p s (· = w) :=
    Delivers.noted (hs.legible room (p.note (.began p.current)) w hg hts hm)
  have hitem : (blockItem (exprAt room)).Delivers (d ≤ room) p (some s) (· = w.advance) := by
    simp only [blockItem, delivers_currentIs_bind, hgo.2, decide_false, Bool.false_eq_true,
      if_false]
    refine hstmt.attempt.andThen (fun q _ hw => ?_)
      (fun s => (Law.follows_afterStatement s).bind fun _ => Law.follows_pure _) Iff.rfl
    have hrun : (do afterStatement (some s); return some s).run q = (some (some s), q.advance) := by
      simp [afterStatement, run_bind, currentIs, Action.advance]
    exact ⟨fun _ => ⟨q.advance, hrun, ⟨rfl, rfl⟩, congrArg Window.advance hw⟩,
      fun h => absurd trivial h⟩
  refine hitem.many_cons hgo.1 (fun q hq hw => ?_) (Law.follows_blockItem hlaw)
    (by omega : _ ↔ d ≤ room ∧ d' ≤ room)
  exact hss room q u (hq.trans hg) (by rwa [hw]) hu

/-- A block is read from bracket to bracket, at the depth of what is in it. -/
theorem legible_block {o c : Token} {ss : List Stmt} (hc : c.kind = .mark .closeCurly)
    (hss : (Form.body ss).Legible σ ts d) :
    (Form.block (.mk o ss)).Legible σ (o :: (ts ++ [c])) d := by
  intro room p u hg hreads
  obtain ⟨rfl, m, hts, rfl, rfl⟩ := reads_between_iff.1 hreads
  have hbody := (hss room p.advance.enterBlock m hg hts hc).inBlock.map
    (fun body => Block.mk p.window.current (body.filterMap id)) Iff.rfl
  rw [List.filterMap_map, Function.id_comp, List.filterMap_some] at hbody
  simp only [block, blockAction, delivers_current_bind, delivers_advance_bind]
  refine hbody.mono Iff.rfl fun w hw => ?_
  rw [hw, Behind]

end MonkeySyntax
