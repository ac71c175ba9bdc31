/-
# Legible spellings

A spelling is legible if it is read as what it spells, with just as much room as expressions nest
deep in it.  For each form of syntax `Form.Legible` says what is read and what has to come next.

| what comes next | why |
| --- | --- |
| no operator tighter than the level of the expression | it would take the expression's end |
| no `else` | it would go with the `if` before it |
| `)` or `]`, `}`, `;` | a list, a block or a statement ends there |

An operand on the left is read by the same call as the operator after it.  So an expression is
legible if whoever reads it comes to a point where it is what was read so far (`Parsing.Opens`).
-/

import MonkeySyntax.Proofs.Delivers
import MonkeySyntax.Proofs.Reads
import MonkeySyntax.Proofs.Spelling
import MonkeySyntax.Proofs.Standard

namespace MonkeySyntax

open MonkeySyntax.Action MonkeySyntax.Parsing MonkeySyntax.Window

/-- Whether a token of kind `k` may come after an expression at level `n`. -/
structure Kind.MayFollow (k : Kind) (n : Nat) : Prop where
  rank_le : (Grammar.standard.power k).rank ≤ n
  ne_else : k ≠ .keyword .elseWord

/-- What may come after an expression may come after one of a higher level. -/
theorem Kind.MayFollow.mono {k : Kind} {m n : Nat} (h : k.MayFollow m) (hmn : m ≤ n) :
    k.MayFollow n := ⟨Nat.le_trans h.rank_le hmn, h.ne_else⟩

/-- A mark that continues no expression may come after any. -/
theorem Kind.MayFollow.mark {m : Mark} {n : Nat}
    (h : Grammar.standard.infixRule (.mark m) = none) : (Kind.mark m).MayFollow n := by
  refine ⟨?_, by simp⟩
  rw [Grammar.power, h]
  exact Nat.zero_le _

/-- Read at power `bp`, an expression at level `n` is read as a whole. -/
structure Power.Takes (bp : Power) (n : Nat) : Prop where
  rank_le : bp.rank ≤ Power.prefixed.rank
  lt_binary : ∀ k q, Grammar.standard.infixRule k = some (q, .binary) → n ≤ q.rank → bp < q

namespace Power

/-- At the lowest power any expression is read as a whole. -/
theorem takes_lowest : lowest.Takes 0 where
  rank_le := Nat.zero_le _
  lt_binary _ _ h _ := (Grammar.rank_of_binary h).1

/-- The operand of a prefix operator is read without the operators after it. -/
theorem takes_prefixed : prefixed.Takes prefixed.rank where
  rank_le := Nat.le_refl _
  lt_binary _ _ h hn := absurd hn (Nat.not_le_of_lt (Grammar.rank_of_binary h).2)

/-- The right operand of an operator is read at the power of that operator. -/
theorem takes_right {k : Kind} {q : Power} (h : Grammar.standard.infixRule k = some (q, .binary)) :
    q.Takes (q.rank + 1) where
  rank_le := Nat.le_of_lt (Grammar.rank_of_binary h).2
  lt_binary _ _ _ hn := hn

/-- At a power that takes a level, higher levels are taken as well. -/
theorem Takes.mono {bp : Power} {m n : Nat} (h : bp.Takes m) (hmn : m ≤ n) : bp.Takes n where
  rank_le := h.rank_le
  lt_binary k q hq hn := h.lt_binary k q hq (Nat.le_trans hmn hn)

/-- What is called or indexed has no operator of its own, and is read before any that follows. -/
theorem Takes.tight {bp q : Power} {n : Nat} (h : bp.Takes n) (hq : prefixed < q) :
    bp.Takes q.rank ∧ bp < q := by
  refine ⟨⟨h.rank_le, fun k r hr hle => ?_⟩, Nat.lt_of_le_of_lt h.rank_le hq⟩
  have hlt := (Grammar.rank_of_binary hr).2
  have hq' : prefixed.rank < q.rank := hq
  omega

end Power

namespace Parsing

variable {σ : Type} [TokenSource σ]

/-- To read an expression from `p` comes to a point before `u` where `e` is what was read so far. -/
structure Opens (expr : Power → Phrase σ Expr) (bp : Power) (fits : Prop) (p : Parser σ)
    (e : Expr) (u : Window σ) : Prop where
  reads : fits → ∃ q, (exprUnder expr bp).run p = (extend expr bp e).run q ∧ p.Quiet q ∧
    u.Behind q.window
  chokes : ¬ fits → p.Chokes ((exprUnder expr bp).run p).2

section

variable {expr : Power → Phrase σ Expr} {bp : Power} {fits fits₁ fits₂ : Prop} {p : Parser σ}
  {e left : Expr} {u v : Window σ}

/-- An operand is what was read after it. -/
theorem Opens.of_operand {rule : PrefixRule} (hlaw : ∀ bp, Law.frame.Follows (expr bp).toAction)
    (hg : p.grammar = .standard)
    (hrule : Grammar.standard.prefixRule p.current.kind = some rule)
    (h : (applyPrefix expr rule).Delivers fits p e u.Behind) : Opens expr bp fits p e u := by
  have hrun : (operandAction expr).run p = (applyPrefix expr rule).run p := by
    simp only [operandAction, hg, hrule]
  constructor
  · intro hf
    obtain ⟨q, hr, hq, hu⟩ := h.reads hf
    refine ⟨q, ?_, hq, hu⟩
    rw [exprUnder, run_bind, hrun, hr]
  · intro hf
    refine chokes_bind ?_ fun left => Law.follows_extend hlaw bp left
    rw [hrun]
    exact h.chokes hf

/-- **A left operand and an operator after it** are what was read after both. -/
theorem Opens.extend {rule : InfixRule} {q : Power}
    (hlaw : ∀ bp, Law.frame.Follows (expr bp).toAction) (h : Opens expr bp fits₁ p left u)
    (hg : p.grammar = .standard)
    (hrule : Grammar.standard.infixRule u.current.kind = some (q, rule)) (hbp : bp < q)
    (hx : ∀ r : Parser σ, r.grammar = .standard → r.window = u →
      (applyInfix expr rule left).Delivers fits₂ r e v.Behind)
    (hfits : fits ↔ fits₁ ∧ fits₂) : Opens expr bp fits p e v := by
  -- one round of the loop, from where the left operand was read
  have hround : ∀ r : Parser σ, p.Quiet r → u.Behind r.window →
      (Parsing.extend expr bp left).run r =
        ((applyInfix expr rule left).toAction >>= Parsing.extend expr bp).run r.advance := by
    intro r hr hu
    have hnext : nextRule bp r = some rule :=
      nextRule_of_infixRule (hr.grammar.trans hg) (hu.peek_kind rfl ▸ hrule) hbp
    rw [run_extend, hnext]
  constructor
  · intro hf
    obtain ⟨r, hrun, hr, hu⟩ := h.reads (hfits.1 hf).1
    obtain ⟨s, hs, hrs, hv⟩ := (hx r.advance (hr.grammar.trans hg) hu).reads (hfits.1 hf).2
    refine ⟨s, ?_, hr.trans ⟨hrs.grammar, hrs.errors⟩, hv⟩
    rw [hrun, hround r hr hu, run_bind, hs]
  · intro hf
    by_cases h₁ : fits₁
    · obtain ⟨r, hrun, hr, hu⟩ := h.reads h₁
      rw [hrun, hround r hr hu]
      have hchokes := (hx r.advance (hr.grammar.trans hg) hu).chokes fun h₂ => hf (hfits.2 ⟨h₁, h₂⟩)
      exact hr.chokes (chokes_bind hchokes fun left => Law.follows_extend hlaw bp left)
    · exact h.chokes h₁

/-- Where nothing that follows is taken in, what was read so far is the expression. -/
theorem Opens.delivers (h : Opens expr bp fits p e u) (hg : p.grammar = .standard)
    (hu : (Grammar.standard.power u.current.kind).rank ≤ bp.rank) :
    (exprUnder expr bp).Delivers fits p e u.Behind where
  reads hf := by
    obtain ⟨q, hrun, hq, hb⟩ := h.reads hf
    have hnext : nextRule bp q = none :=
      nextRule_eq_none (hq.grammar.trans hg) (hb.peek_kind rfl ▸ hu)
    exact ⟨q, by rw [hrun, run_extend, hnext], hq, hb⟩
  chokes := h.chokes

end

end Parsing

/-! ### Legible forms -/

section

variable (σ : Type) [TokenSource σ]

/-- The tokens `ts` are read as `f` wherever something follows them that may, and expressions may
be `d` deep in it. -/
def Form.Legible : Form → List Token → Nat → Prop
  | .expr n e, ts, d => ∀ room bp (p : Parser σ) u, p.grammar = .standard → p.window.Reads ts u →
      u.current.kind.MayFollow n → bp.Takes n → Opens (exprAt room) bp (d ≤ room + 1) p e u
  | .exprs es, ts, d => ∀ room close (p : Parser σ) u, p.grammar = .standard →
      p.window.advance.Reads ts u → close = .closeParen ∨ close = .closeBracket →
      u.current.kind = .mark close →
        (expressions (exprAt room) close).Delivers (d ≤ room) p es (· = u)
  | .moreExprs es, ts, d => ∀ room (p : Parser σ) u, p.grammar = .standard →
      p.window.advance.Reads ts u → u.current.kind.MayFollow 0 →
      u.current.kind ≠ .mark .comma →
        (many commaFollows (nextExpression (exprAt room)) (nextExpression_shrinks _)).Delivers
          (d ≤ room) p es u.Behind
  | .pairs ps, ts, d => ∀ room (p : Parser σ) u, p.grammar = .standard →
      p.window.advance.Reads ts u → u.current.kind = .mark .closeCurly →
        (many inHash (pair (exprAt room)) ((key_shrinks _).bind _)).Delivers
          (d ≤ room) p ps u.Behind
  | .block b, ts, d => ∀ room (p : Parser σ) u, p.grammar = .standard → p.window.Reads ts u →
      (Parsing.block (exprAt room)).Delivers (d ≤ room) p b u.Behind
  | .stmt s, ts, d => ∀ room (p : Parser σ) u, p.grammar = .standard → p.window.Reads ts u →
      u.current.kind = .mark .semicolon →
        (anyStatement (exprAt room)).Delivers (d ≤ room) p s (· = u)
  | .body ss, ts, d => ∀ room (p : Parser σ) u, p.grammar = .standard → p.window.Reads ts u →
      u.current.kind = .mark .closeCurly →
        (many inBody (blockItem (exprAt room)) (blockItem_shrinks _)).Delivers
          (d ≤ room) p (ss.map some) (· = u)

/-- A spelling by the grammar, every statement with its `;`, that is legible. -/
structure Form.Spelt (f : Form) (ts : List Token) (d : Nat) : Prop where
  spells : Spells ⟨False, False⟩ f ts d
  legible : f.Legible σ ts d

end

section

variable {σ : Type} [TokenSource σ]

/-- An expression is read by whoever takes all of it and leaves what follows. -/
theorem Form.Spelt.delivers {n d room : Nat} {e : Expr} {ts : List Token} {bp : Power}
    {p : Parser σ} {u : Window σ} (h : (Form.expr n e).Spelt σ ts d) (hg : p.grammar = .standard)
    (hr : p.window.Reads ts u) (hn : u.current.kind.MayFollow n) (hbp : bp.Takes n)
    (hu : (Grammar.standard.power u.current.kind).rank ≤ bp.rank) :
    (exprAt room bp).Delivers (d ≤ room) p e u.Behind := by
  have hpos := h.spells.depth_pos
  cases room with
  | zero => exact delivers_reject (by omega) rfl
  | succ room => exact ((h.legible room bp p.enterExpr u hg hr hn hbp).delivers hg hu).inExpr

/-- An expression by itself. -/
theorem Form.Spelt.lowest {d room : Nat} {e : Expr} {ts : List Token} {p : Parser σ}
    {u : Window σ} (h : (Form.expr 0 e).Spelt σ ts d) (hg : p.grammar = .standard)
    (hr : p.window.Reads ts u) (hu : u.current.kind.MayFollow 0) :
    (exprAt room .lowest).Delivers (d ≤ room) p e u.Behind :=
  h.delivers hg hr hu Power.takes_lowest hu.rank_le

/-- An expression by itself, a token that has to follow, and what comes after it. -/
theorem Form.Spelt.bind_expect {α : Type} {d room : Nat} {e : Expr} {ts : List Token} {k : Kind}
    {g : Expr → Unit → Action σ α} {x : α} {p : Parser σ} {u : Window σ} {fits fits₁ : Prop}
    {stop : Window σ → Prop} (h : (Form.expr 0 e).Spelt σ ts d) (hg : p.grammar = .standard)
    (hts : p.window.Reads ts u) (hu : u.current.kind = k) (hk : k.MayFollow 0)
    (hx : ∀ q : Parser σ, q.grammar = .standard → q.window = u →
      (g e ()).Delivers fits₁ q x stop)
    (hlaw : ∀ y, Law.frame.Follows (g y ())) (hfits : fits ↔ d ≤ room ∧ fits₁) :
    ((exprAt room .lowest).toAction >>= fun y => expect k >>= g y).Delivers fits p x stop := by
  refine (h.lowest hg hts (hu ▸ hk)).bind (fun q hq hb => ?_)
    (fun y => (Law.follows_expect k).bind fun _ => hlaw y) hfits
  exact delivers_expect_bind (hb.peek_kind hu) (hx q.advance (hq.trans hg) hb)

/-- An operand is legible if the rule of its first token reads it. -/
theorem legible_operand {n d : Nat} {ts : List Token} {rule : PrefixRule} {k : Kind} {t : Token}
    {e : Expr} (ht : t.kind = k) (hk : Grammar.standard.prefixRule k = some rule)
    (h : ∀ room (p : Parser σ) u, p.grammar = .standard → p.window.Reads (t :: ts) u →
      u.current.kind.MayFollow n →
        (applyPrefix (exprAt room) rule).Delivers (d ≤ room + 1) p e u.Behind) :
    (Form.expr n e).Legible σ (t :: ts) d := by
  intro room bp p u hg hreads hu _
  have hcurrent : p.current = t := (reads_cons_iff.1 hreads).1
  have hrule : Grammar.standard.prefixRule p.current.kind = some rule := by rw [hcurrent, ht, hk]
  exact .of_operand (Law.frame.follows_exprAt room) hg hrule (h room p u hg hreads hu)

end

end MonkeySyntax
