/-
# Conditionals and functions are legible

Both end in a block.  A conditional looks whether `else` follows it, which is why nothing that is
legible may have `else` after it.
-/

import MonkeySyntax.Proofs.Legible

namespace MonkeySyntax

open MonkeySyntax.Action MonkeySyntax.Parsing MonkeySyntax.Spelling MonkeySyntax.Window

variable {σ : Type} [TokenSource σ] {n d d' : Nat} {ts us : List Token}

/-- Without `else` after it, a conditional has one block. -/
theorem alternative_delivers_none {expr : Power → Phrase σ Expr} {p : Parser σ} {u : Window σ}
    (hp : u.Behind p.window) (hu : u.current.kind ≠ .keyword .elseWord) :
    (alternative expr).Delivers True p none u.Behind := by
  have hpeek : p.peek.kind ≠ .keyword .elseWord := hp.peek_kind rfl ▸ hu
  simp only [alternative, delivers_peekIs_bind, hpeek, decide_false, Bool.false_eq_true, if_false]
  exact delivers_pure trivial hp

/-- A conditional is read up to its block, if no `else` comes after it. -/
theorem legible_conditional {t : Token} {e : Expr} {b : Block} (ht : t.kind = .keyword .ifWord)
    (he : (Form.expr 0 e).Spelt σ ts d) (hb : (Form.block b).Spelt σ us d') :
    (Form.expr n (.conditional t e b none)).Legible σ (t :: (ts ++ us)) (max d d' + 1) := by
  have hlaw : ∀ room bp, Law.frame.Follows (exprAt room bp : Phrase σ Expr).toAction :=
    Law.frame.follows_exprAt
  refine legible_operand ht rfl fun room p u hg hreads hu => ?_
  obtain ⟨rfl, hrest⟩ := reads_cons_iff.1 hreads
  obtain ⟨m, hts, hus⟩ := reads_append_iff.1 hrest
  obtain ⟨o, vs, rfl, ho⟩ := hb.spells.exists_head_block
  have hm : m.current.kind = .mark .openCurly := by rw [(reads_cons_iff.1 hus).1, ho]
  simp only [applyPrefix, conditional, delivers_current_bind, delivers_advance_bind]
  refine he.bind_expect hg hts hm (.mark rfl) (fun q hq hw => ?_)
    (fun _ => (Law.follows_block (hlaw room)).bind fun _ =>
      (Law.follows_alternative (hlaw room)).bind fun _ => Law.follows_pure _)
    (by omega : _ ↔ d ≤ room ∧ d' ≤ room)
  refine (hb.legible room q u hq (hw ▸ hus)).andThen (fun r _ hr => ?_)
    (fun _ => (Law.follows_alternative (hlaw room)).bind fun _ => Law.follows_pure _) Iff.rfl
  exact (alternative_delivers_none hr hu.ne_else).map _ Iff.rfl

/-- A conditional with an alternative is read up to the block of that. -/
theorem legible_alternative {d'' : Nat} {t o : Token} {e : Expr} {b a : Block} {vs : List Token}
    (ht : t.kind = .keyword .ifWord) (ho : o.kind = .keyword .elseWord)
    (he : (Form.expr 0 e).Spelt σ ts d) (hb : (Form.block b).Spelt σ us d')
    (ha : (Form.block a).Spelt σ vs d'') :
    (Form.expr n (.conditional t e b (some a))).Legible σ (t :: (ts ++ (us ++ o :: vs)))
      (max d (max d' d'') + 1) := by
  have hlaw : ∀ room bp, Law.frame.Follows (exprAt room bp : Phrase σ Expr).toAction :=
    Law.frame.follows_exprAt
  refine legible_operand ht rfl fun room p u hg hreads hu => ?_
  obtain ⟨rfl, hrest⟩ := reads_cons_iff.1 hreads
  obtain ⟨m, hts, hrest⟩ := reads_append_iff.1 hrest
  obtain ⟨v, hus, hrest⟩ := reads_append_iff.1 hrest
  obtain ⟨rfl, hvs⟩ := reads_cons_iff.1 hrest
  obtain ⟨c, us, rfl, hc⟩ := hb.spells.exists_head_block
  obtain ⟨c', vs, rfl, hc'⟩ := ha.spells.exists_head_block
  have hm : m.current.kind = .mark .openCurly := by rw [(reads_cons_iff.1 hus).1, hc]
  have hv : v.peek.kind = .mark .openCurly := by
    rw [show v.peek = c' from (reads_cons_iff.1 hvs).1, hc']
  simp only [applyPrefix, conditional, delivers_current_bind, delivers_advance_bind]
  refine he.bind_expect hg hts hm (.mark rfl) (fun q hq hw => ?_)
    (fun _ => (Law.follows_block (hlaw room)).bind fun _ =>
      (Law.follows_alternative (hlaw room)).bind fun _ => Law.follows_pure _)
    (by omega : _ ↔ d ≤ room ∧ d' ≤ room ∧ d'' ≤ room)
  refine (hb.legible room q v hq (hw ▸ hus)).bind (fun r hr hrv => ?_)
    (fun _ => (Law.follows_alternative (hlaw room)).bind fun _ => Law.follows_pure _) Iff.rfl
  have hpeek : r.peek.kind = .keyword .elseWord := hrv.peek_kind ho
  have hwindow : r.advance.window = v := hrv
  have hv' : r.advance.window.peek.kind = .mark .openCurly := by rw [hwindow, hv]
  have hvs' : r.advance.window.advance.Reads (c' :: vs) u := by rwa [hwindow]
  have halternative : (alternative (exprAt room)).Delivers (d'' ≤ room) r (some a) u.Behind := by
    simp only [alternative, delivers_peekIs_bind, hpeek, decide_true, if_true,
      delivers_advance_bind]
    refine delivers_expect_bind hv' ?_
    exact (ha.legible room r.advance.advance u (hr.trans hq) hvs').map _ Iff.rfl
  exact halternative.map _ Iff.rfl

/-- Further parameters are read up to the closing bracket, comma by comma. -/
theorem moreNames_delivers {ns : List Identifier} (h : MoreNames ns ts) :
    ∀ (p : Parser σ) u, p.window.advance.Reads ts u → u.current.kind = .mark .closeParen →
      (many commaFollows nextParameter nextParameter_shrinks).Delivers True p ns u.Behind := by
  induction h with
  | nil =>
    intro p u hr hu
    obtain rfl := reads_nil_iff.1 hr
    have hpeek : p.peek.kind = .mark .closeParen := hu
    have hgo : commaFollows p = false := by
      rw [commaFollows, hpeek]
      rfl
    exact delivers_many_nil hgo trivial rfl
  | @cons c t ns ts hc ht _ ih =>
    intro p u hr hu
    obtain ⟨rfl, hname⟩ := reads_cons_iff.1 hr
    obtain ⟨rfl, hrest⟩ := reads_cons_iff.1 hname
    have hitem : (nextParameter : Action σ Identifier).Delivers True p
        (nameOf p.window.advance.advance.current) (· = p.window.advance.advance) := by
      simp only [nextParameter, currentName, delivers_advance_bind]
      refine delivers_expect_bind ht ?_
      rw [delivers_current_bind]
      exact delivers_pure trivial rfl
    have hlaw : Law.frame.Follows (nextParameter : Action σ Identifier) :=
      Law.follows_advance.bind fun _ => (Law.follows_expect _).bind fun _ =>
        Law.follows_current.bind fun _ => Law.follows_pure _
    refine hitem.many_cons (decide_eq_true hc) (fun q _ hq => ?_) hlaw
      (by simp : True ↔ True ∧ True)
    exact ih q u (by rwa [hq]) hu

/-- Names between brackets are read as parameters. -/
theorem names_delivers {ns : List Identifier} (h : Names ns ts) (p : Parser σ) {u : Window σ}
    (ho : p.peek.kind = .mark .openParen) (hr : p.window.advance.advance.Reads ts u)
    (hu : u.current.kind = .mark .closeParen) :
    (parameters : Action σ (List Identifier)).Delivers True p ns (· = u) := by
  refine delivers_expect_bind ho ?_
  rw [delivers_peekIs_bind]
  cases h with
  | nil =>
    obtain rfl := reads_nil_iff.1 hr
    have hclose : p.advance.peek.kind = .mark .closeParen := hu
    rw [if_pos (decide_eq_true hclose), delivers_advance_bind]
    exact delivers_pure trivial rfl
  | cons ht hns =>
    obtain ⟨rfl, hrest⟩ := reads_cons_iff.1 hr
    have hname : p.advance.peek.kind = .identifier := ht
    have hopen : ¬ decide (p.advance.peek.kind = .mark .closeParen) = true := by
      rw [hname]
      decide
    rw [if_neg hopen]
    refine delivers_expect_bind hname ?_
    rw [delivers_currentName_bind]
    refine (moreNames_delivers hns p.advance.advance u hrest hu).andThen (fun q _ hq => ?_)
      (fun _ => (Law.follows_expect _).bind fun _ => Law.follows_pure _) Iff.rfl
    exact delivers_expect_bind (hq.peek_kind hu) (delivers_pure trivial hq)

/-- A function is read from its keyword over the parameters to the end of its block. -/
theorem legible_function {t o c : Token} {ns : List Identifier} {b : Block}
    (ht : t.kind = .keyword .fnWord) (ho : o.kind = .mark .openParen)
    (hc : c.kind = .mark .closeParen) (hns : Names ns ts) (hb : (Form.block b).Spelt σ us d) :
    (Form.expr n (.function t ns b)).Legible σ (t :: o :: (ts ++ c :: us)) (d + 1) := by
  have hlaw : ∀ room bp, Law.frame.Follows (exprAt room bp : Phrase σ Expr).toAction :=
    Law.frame.follows_exprAt
  refine legible_operand ht rfl fun room p u hg hreads _ => ?_
  obtain ⟨rfl, hopen⟩ := reads_cons_iff.1 hreads
  obtain ⟨rfl, hrest⟩ := reads_cons_iff.1 hopen
  obtain ⟨m, hts, hclose⟩ := reads_append_iff.1 hrest
  obtain ⟨rfl, hus⟩ := reads_cons_iff.1 hclose
  obtain ⟨o, vs, rfl, ho'⟩ := hb.spells.exists_head_block
  have hm : m.peek.kind = .mark .openCurly := by
    rw [show m.peek = o from (reads_cons_iff.1 hus).1, ho']
  simp only [applyPrefix, function, delivers_current_bind]
  refine (names_delivers hns p ho hts hc).bind (fun q hq hw => ?_)
    (fun _ => (Law.follows_expect _).bind fun _ =>
      (Law.follows_block (hlaw room)).bind fun _ => Law.follows_pure _)
    (by simp : _ ↔ True ∧ d ≤ room)
  subst hw
  exact delivers_expect_bind hm ((hb.legible room q.advance u (hq.trans hg) hus).map _ Iff.rfl)

end MonkeySyntax
