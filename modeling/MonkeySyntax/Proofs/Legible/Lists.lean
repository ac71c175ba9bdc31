/-
# Lists are legible

Expressions with commas in between, and keys with values.  A list goes on by what follows: further
expressions begin with a comma, a further pair with anything but a closing bracket.
-/

import MonkeySyntax.Proofs.Legible

namespace MonkeySyntax

open MonkeySyntax.Action MonkeySyntax.Parsing MonkeySyntax.Window

variable {σ : Type} [TokenSource σ] {d d' : Nat} {ts us : List Token}

/-- No further expressions are read where no comma follows. -/
theorem legible_noMore : (Form.moreExprs []).Legible σ [] 0 := by
  intro room p u _ hr _ hu
  obtain rfl := reads_nil_iff.1 hr
  exact delivers_many_nil (decide_eq_false hu) (Nat.zero_le _) rfl

/-- A comma may come after an expression, and so may what comes after further ones. -/
theorem mayFollow_of_moreExprs {es : List Expr} {u w : Window σ}
    (h : Spells ⟨False, False⟩ (.moreExprs es) ts d) (hr : w.Reads ts u)
    (hu : u.current.kind.MayFollow 0) : w.current.kind.MayFollow 0 := by
  cases h with
  | noMore =>
    obtain rfl := reads_nil_iff.1 hr
    exact hu
  | more hc =>
    rw [(reads_cons_iff.1 hr).1, hc]
    exact .mark rfl

/-- A further expression is read with the comma before it, and then those after it. -/
theorem legible_more {c : Token} {e : Expr} {es : List Expr} (hc : c.kind = .mark .comma)
    (he : (Form.expr 0 e).Spelt σ ts d) (hes : (Form.moreExprs es).Spelt σ us d') :
    (Form.moreExprs (e :: es)).Legible σ (c :: (ts ++ us)) (max d d') := by
  intro room p u hg hreads hu hcomma
  obtain ⟨rfl, hrest⟩ := reads_cons_iff.1 hreads
  obtain ⟨m, hts, hus⟩ := reads_append_iff.1 hrest
  have hitem : (nextExpression (exprAt room)).Delivers (d ≤ room) p e m.Behind := by
    simp only [nextExpression, delivers_advance_bind]
    exact he.lowest hg hts (mayFollow_of_moreExprs hes.spells hus hu)
  refine hitem.many_cons (decide_eq_true hc) (fun q hq hm => ?_)
    (Law.follows_advance.bind fun _ => Law.follows_advance.bind fun _ =>
      Law.frame.follows_exprAt room _) (by omega : _ ↔ d ≤ room ∧ d' ≤ room)
  exact hes.legible room q u (hq.trans hg) (by rwa [hm]) hu hcomma

/-- An empty list is read where its closing mark follows. -/
theorem legible_noExprs : (Form.exprs []).Legible σ [] 0 := by
  intro room close p u _ hr _ hu
  obtain rfl := reads_nil_iff.1 hr
  have hpeek : p.peek.kind = .mark close := hu
  simp only [expressions, delivers_peekIs_bind]
  rw [if_pos (decide_eq_true hpeek)]
  exact delivers_expect_bind hpeek (delivers_pure (Nat.zero_le _) rfl)

/-- A list of expressions is read from the first of them on. -/
theorem legible_exprs {e : Expr} {es : List Expr} (he : (Form.expr 0 e).Spelt σ ts d)
    (hes : (Form.moreExprs es).Spelt σ us d') :
    (Form.exprs (e :: es)).Legible σ (ts ++ us) (max d d') := by
  intro room close p u hg hreads hclose hu
  obtain ⟨m, hts, hus⟩ := reads_append_iff.1 hreads
  have hfollow : (Kind.mark close).MayFollow 0 := by
    rcases hclose with rfl | rfl <;> exact .mark rfl
  have hcomma : Kind.mark close ≠ .mark .comma := by
    rcases hclose with rfl | rfl <;> decide
  have hpeek : ¬ decide (p.peek.kind = .mark close) = true := by
    obtain ⟨t, ts, rule, rfl, hrule⟩ := he.spells.exists_head
    rw [show p.peek = t from (reads_cons_iff.1 hts).1, decide_eq_true_iff]
    intro hk
    rw [hk] at hrule
    rcases hclose with rfl | rfl <;> cases hrule
  rw [← hu] at hfollow hcomma
  simp only [expressions, delivers_peekIs_bind]
  rw [if_neg hpeek, delivers_advance_bind]
  refine (he.lowest (p := p.advance) hg hts (mayFollow_of_moreExprs hes.spells hus hfollow)).bind
    (fun q hq hm => ?_)
    (fun _ => (Law.Follows.many (Law.follows_advance.bind fun _ => Law.follows_advance.bind fun _ =>
      Law.frame.follows_exprAt room _)).bind fun _ => (Law.follows_expect _).bind fun _ =>
        Law.follows_pure _) (by omega : _ ↔ d ≤ room ∧ d' ≤ room)
  refine (hes.legible room q u (hq.trans hg) (by rwa [hm]) hfollow hcomma).andThen
    (fun r _ hr => ?_) (fun _ => (Law.follows_expect _).bind fun _ => Law.follows_pure _) Iff.rfl
  exact delivers_expect_bind (hr.peek_kind hu) (delivers_pure trivial hr)

/-- No pair is read where the closing bracket follows. -/
theorem legible_noPairs : (Form.pairs []).Legible σ [] 0 := by
  intro room p u _ hr hu
  obtain rfl := reads_nil_iff.1 hr
  have hpeek : p.peek.kind = .mark .closeCurly := hu
  exact delivers_many_nil (by simp [inHash, hpeek]) (Nat.zero_le _) rfl

/-- A key is read up to the colon after it. -/
theorem key_delivers {room : Nat} {k : Expr} {p : Parser σ} {u : Window σ}
    (hk : (Form.expr 0 k).Spelt σ ts d) (hg : p.grammar = .standard)
    (hr : p.window.advance.Reads ts u) (hu : u.current.kind = .mark .colon) :
    (key (exprAt room)).Delivers (d ≤ room) p k (· = u) := by
  simp only [key, delivers_advance_bind]
  exact hk.bind_expect hg hr hu (.mark rfl) (fun q _ hq => delivers_pure trivial hq)
    (fun _ => Law.follows_pure _) (by simp)

/-- A key and a value are a pair, wherever it ends: before the closing bracket or at a comma. -/
theorem pair_delivers {room : Nat} {c : Token} {k v : Expr} {p : Parser σ} {u : Window σ}
    {stop : Window σ → Prop} (hc : c.kind = .mark .colon) (hk : (Form.expr 0 k).Spelt σ ts d)
    (hv : (Form.expr 0 v).Spelt σ us d') (hg : p.grammar = .standard)
    (hr : p.window.advance.Reads (ts ++ c :: us) u) (hu : u.current.kind.MayFollow 0)
    (hend : ∀ q : Parser σ, u.Behind q.window →
      (u.current.kind = .mark .closeCurly ∧ stop q.window) ∨
        (u.current.kind = .mark .comma ∧ stop u)) :
    (pair (exprAt room)).Delivers (d ≤ room ∧ d' ≤ room) p (k, v) stop := by
  obtain ⟨m, hts, hrest⟩ := reads_append_iff.1 hr
  obtain ⟨rfl, hus⟩ := reads_cons_iff.1 hrest
  have hlaw : ∀ k v, Law.frame.Follows (do
      if ← peekIs (.mark .closeCurly) then return (k, v)
      else
        expect (.mark .comma)
        return (k, v) : Action σ (Expr × Expr)) := by
    refine fun k v => (Law.follows_peekIs _).bind fun b => ?_
    split
    · exact Law.follows_pure _
    · exact (Law.follows_expect _).bind fun _ => Law.follows_pure _
  refine (key_delivers hk hg hts hc).bind (fun q hq hm => ?_)
    (fun k => Law.follows_advance.bind fun _ =>
      (Law.frame.follows_exprAt room _).bind fun v => hlaw k v) Iff.rfl
  rw [delivers_advance_bind]
  refine (hv.lowest (p := q.advance) (hq.trans hg) (by rwa [← hm] at hus) hu).andThen
    (fun r _ hr => ?_) (fun v => hlaw k v) Iff.rfl
  rw [delivers_peekIs_bind]
  rcases hend r hr with ⟨hclose, hstop⟩ | ⟨hcomma, hstop⟩
  · rw [if_pos (decide_eq_true (hr.peek_kind hclose))]
    exact delivers_pure trivial hstop
  · have hpeek : r.peek.kind = .mark .comma := hr.peek_kind hcomma
    have hne : ¬ decide (r.peek.kind = .mark .closeCurly) = true := by
      rw [hpeek]
      decide
    rw [if_neg hne]
    refine delivers_expect_bind hpeek (delivers_pure trivial ?_)
    rwa [Parser.window_advance, hr]

/-- A hash goes on where a key follows. -/
theorem inHash_of_key {k : Expr} {p : Parser σ} {u : Window σ}
    (hk : Spells ⟨False, False⟩ (.expr 0 k) ts d) (hr : p.window.advance.Reads (ts ++ us) u) :
    inHash p = true := by
  obtain ⟨t, vs, rule, rfl, hrule⟩ := hk.exists_head
  have hpeek : p.peek = t := (reads_cons_iff.1 hr).1
  refine decide_eq_true fun hclose => ?_
  rw [← hpeek, hclose] at hrule
  cases hrule

/-- The last pair of a hash is read without a comma after it. -/
theorem legible_lastPair {c : Token} {k v : Expr} (hc : c.kind = .mark .colon)
    (hk : (Form.expr 0 k).Spelt σ ts d) (hv : (Form.expr 0 v).Spelt σ us d') :
    (Form.pairs [(k, v)]).Legible σ (ts ++ c :: us) (max d d') := by
  intro room p u hg hr hu
  have hitem : (pair (exprAt room)).Delivers (d ≤ room ∧ d' ≤ room) p (k, v) u.Behind :=
    pair_delivers hc hk hv hg hr (hu ▸ .mark rfl) fun q hq => .inl ⟨hu, hq⟩
  refine hitem.many_cons (inHash_of_key hk.spells hr) (fun q _ hq => ?_)
    (Law.follows_pair (Law.frame.follows_exprAt room))
    (by rw [and_true, Nat.max_le] : _ ↔ (d ≤ room ∧ d' ≤ room) ∧ True)
  exact delivers_many_nil (by simp [inHash, hq.peek_kind hu]) trivial hq

/-- A pair is read with the comma after it, and then the other pairs. -/
theorem legible_pairs {d'' : Nat} {c m : Token} {k v : Expr} {ps : List (Expr × Expr)}
    {vs : List Token} (hc : c.kind = .mark .colon) (hm : m.kind = .mark .comma)
    (hk : (Form.expr 0 k).Spelt σ ts d) (hv : (Form.expr 0 v).Spelt σ us d')
    (hps : (Form.pairs ps).Legible σ vs d'') :
    (Form.pairs ((k, v) :: ps)).Legible σ (ts ++ c :: (us ++ m :: vs)) (max d (max d' d'')) := by
  intro room p u hg hreads hu
  rw [← List.cons_append, ← List.append_assoc] at hreads
  obtain ⟨w, hpair, hrest⟩ := reads_append_iff.1 hreads
  obtain ⟨rfl, hvs⟩ := reads_cons_iff.1 hrest
  have hitem : (pair (exprAt room)).Delivers (d ≤ room ∧ d' ≤ room) p (k, v) (· = w) :=
    pair_delivers hc hk hv hg hpair (hm ▸ .mark rfl) fun q _ => .inr ⟨hm, rfl⟩
  refine hitem.many_cons (inHash_of_key hk.spells hpair) (fun q hq hw => ?_)
    (Law.follows_pair (Law.frame.follows_exprAt room))
    (by omega : _ ↔ (d ≤ room ∧ d' ≤ room) ∧ d'' ≤ room)
  exact hps room q u (hq.trans hg) (by rwa [hw]) hu

end MonkeySyntax
