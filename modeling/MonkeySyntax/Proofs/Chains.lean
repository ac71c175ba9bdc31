/-
# Chains of operators

`a == b + c * d - e` and so on, to any length: operands that are one token each, with binary
operators between them, and `;` after the last.  The grammar may have further binary operators of
any power, other than `;` (`Grammar.Registers`).

| tree over a chain | a child that has an operator |
| --- | --- |
| left | binds at least as tightly |
| right | binds more tightly |

A chain has one tree of this shape (`Expr.Grouped`), and it is the one that is read
(`expression_chain`).  Only a right operand is read by a call of its own, and its operators bind
more tightly than the one before it.  There are eight powers, so eight levels are enough for chains
of any length.
-/

import MonkeySyntax.Proofs.Delivers
import MonkeySyntax.Proofs.Reads
import MonkeySyntax.Proofs.Standard
import MonkeySyntax.Tree.Parts

namespace MonkeySyntax

open MonkeySyntax.Action MonkeySyntax.Parsing MonkeySyntax.Window

/-! ### Chains -/

/-- The grammar of Monkey with further binary operators, none of them `;`. -/
inductive Grammar.Registers : Grammar → Prop
  | standard : Registers .standard
  | operator {g : Grammar} (k : Kind) (q : Power) (hk : k ≠ .mark .semicolon) :
    g.Registers → (g.withInfix k q .binary).Registers

namespace Grammar.Registers

variable {g : Grammar}

/-- Registered operators leave the prefix rules as they are. -/
theorem prefixRule_eq (h : g.Registers) : g.prefixRule = Grammar.standard.prefixRule := by
  induction h with
  | standard => rfl
  | operator _ _ _ _ ih => exact ih

/-- Registered operators leave `;` without a rule, so it ends every chain. -/
theorem infixRule_semicolon (h : g.Registers) : g.infixRule (.mark .semicolon) = none := by
  induction h with
  | standard => rfl
  | operator k q hk _ ih => exact (if_neg hk.symm).trans ih

end Grammar.Registers

/-- The expression that a token is by itself: a name, a number in range, a string, `true` or
`false`. -/
def Token.leaf? (t : Token) : Option Expr :=
  match t.kind with
  | .identifier => some (.identifier (nameOf t))
  | .integer => (Numeral.int64? t.value).map (.integer t)
  | .string => some (.string t t.value)
  | .keyword .trueWord => some (.boolean t true)
  | .keyword .falseWord => some (.boolean t false)
  | _ => none

/-- A token of kind `k` is a binary operator. -/
def Grammar.Operates (g : Grammar) (k : Kind) : Prop :=
  ∃ q, g.infixRule k = some (q, .binary) ∧ .lowest < q

/-- Operands with binary operators between them. -/
inductive Grammar.Chain (g : Grammar) : List Token → Prop
  | operand {a : Token} (ha : a.leaf?.isSome) : Chain g [a]
  | snoc {ts : List Token} {o a : Token} (hts : Chain g ts) (ho : g.Operates o.kind)
      (ha : a.leaf?.isSome) : Chain g (ts ++ [o, a])

/-- The power of the operator of an expression, if it has one at its root. -/
def Expr.rootPower? (g : Grammar) : Expr → Option Power
  | .infixOp t _ _ _ => some (g.power t.kind)
  | _ => none

/-- A tree of operators over tokens, in which a left operand binds at least as tightly as its
operator, and a right operand more tightly. -/
inductive Expr.Grouped (g : Grammar) : Expr → Prop
  | leaf {t : Token} {e : Expr} (h : t.leaf? = some e) : Grouped g e
  | node {t : Token} {l r : Expr} (hl : l.Grouped g) (hr : r.Grouped g)
      (left : ∀ q ∈ l.rootPower? g, g.power t.kind ≤ q)
      (right : ∀ q ∈ r.rootPower? g, g.power t.kind < q) : Grouped g (.infixOp t l t.value r)

/-! ### Operands -/

namespace Token

variable {t : Token} {e : Expr}

/-- An operand is one token, and no operator is at its root. -/
theorem tokens_of_leaf? (h : t.leaf? = some e) : e.tokens = [t] ∧ ∀ g, e.rootPower? g = none := by
  unfold leaf? at h
  split at h
  case h_2 =>
    obtain ⟨n, -, rfl⟩ := Option.map_eq_some_iff.1 h
    exact ⟨rfl, fun _ => rfl⟩
  all_goals cases h <;> exact ⟨rfl, fun _ => rfl⟩

/-- **An operand is read as what it is.** -/
theorem run_operandAction_of_leaf? {σ : Type} [TokenSource σ] (expr : Power → Phrase σ Expr)
    {p : Parser σ} (hg : p.grammar.prefixRule = Grammar.standard.prefixRule)
    (h : p.current.leaf? = some e) : (operandAction expr).run p = (some e, p) := by
  have hrule : p.grammar.prefixRule p.current.kind = some .primary := by
    rw [hg]
    unfold leaf? at h
    split at h <;> simp_all [Grammar.standard]
  have hprimary : (primaryAction : Action σ Expr).run p = (some e, p) := by
    rw [primaryAction, run_current_bind]
    unfold leaf? at h
    split at h
    case h_2 =>
      obtain ⟨n, hn, rfl⟩ := Option.map_eq_some_iff.1 h
      simp_all
    all_goals simp_all
  simp only [operandAction, hrule]
  exact hprimary

end Token

/-! ### Operators -/

/-- Every second token: the operators, if operands are between them. -/
def seconds : List Token → List Token
  | _ :: o :: ts => o :: seconds ts
  | _ => []

/-- An odd number of tokens, and then `t`: after an operand an operator. -/
theorem seconds_append {ts us : List Token} {t : Token} (h : ts.length % 2 = 1) :
    seconds (ts ++ t :: us) = seconds ts ++ t :: seconds us := by
  fun_induction seconds ts with
  | case1 a o ts ih =>
    have hodd : ts.length % 2 = 1 := by
      simp only [List.length_cons] at h
      omega
    rw [List.cons_append, List.cons_append, seconds, ih hodd, List.cons_append]
  | case2 ts hts =>
    match ts, h with
    | [a], _ => rw [List.singleton_append, seconds, List.nil_append]
    | a :: o :: ts, _ => exact absurd rfl (hts a o ts)

namespace Grammar.Chain

variable {g : Grammar} {ts : List Token}

/-- A chain has an odd number of tokens, one operand more than operators. -/
theorem length (h : g.Chain ts) : ts.length % 2 = 1 := by
  induction h with
  | operand => rfl
  | snoc _ _ _ ih => simpa using ih

/-- Every second token of a chain is an operator. -/
theorem operates (h : g.Chain ts) : ∀ o ∈ seconds ts, g.Operates o.kind := by
  induction h with
  | operand => simp [seconds]
  | @snoc ts o a hts ho _ ih =>
    rw [seconds_append hts.length, List.forall_mem_append]
    exact ⟨ih, by simpa [seconds] using ho⟩

end Grammar.Chain

namespace Expr.Grouped

variable {g : Grammar} {e : Expr}

/-- A tree has an odd number of tokens, one leaf more than operators. -/
theorem length (h : e.Grouped g) : e.tokens.length % 2 = 1 := by
  induction h with
  | leaf h => rw [(Token.tokens_of_leaf? h).1, List.length_singleton]
  | node _ _ _ _ ihl ihr =>
    rw [tokens, List.length_append, List.length_cons]
    omega

/-- The operator at the root binds more tightly than nothing. -/
theorem lowest_lt (h : e.Grouped g) (hops : ∀ o ∈ seconds e.tokens, g.Operates o.kind) :
    ∀ q ∈ e.rootPower? g, .lowest < q := by
  cases h with
  | leaf h => simp [(Token.tokens_of_leaf? h).2]
  | @node t l r hl hr =>
    rw [tokens, seconds_append hl.length] at hops
    obtain ⟨q, hrule, hq⟩ := hops t (by simp)
    rintro _ ⟨⟩
    rwa [Grammar.power_of_infixRule hrule]

/-- **One more operator and its operand** go to the right edge of a tree, below the operators there
that bind less tightly. -/
theorem snoc (h : e.Grouped g) {o a : Token} (ha : a.leaf?.isSome) :
    ∃ e' : Expr, e'.Grouped g ∧ e'.tokens = e.tokens ++ [o, a] ∧
      ∀ q ∈ e'.rootPower? g, q = g.power o.kind ∨ q ∈ e.rootPower? g := by
  obtain ⟨x, hx⟩ := Option.isSome_iff_exists.1 ha
  have hleaf := Token.tokens_of_leaf? hx
  -- the tree with the new operator at its root
  have hroot {e : Expr} (h : e.Grouped g) (hpower : ∀ q ∈ e.rootPower? g, g.power o.kind ≤ q) :
      ∃ e' : Expr, e'.Grouped g ∧ e'.tokens = e.tokens ++ [o, a] ∧
        ∀ q ∈ e'.rootPower? g, q = g.power o.kind ∨ q ∈ e.rootPower? g := by
    refine ⟨.infixOp o e o.value x, .node h (.leaf hx) hpower ?_, ?_, ?_⟩
    · simp [hleaf.2]
    · rw [tokens, hleaf.1]
    · simp [rootPower?]
  induction h with
  | leaf h => exact hroot (.leaf h) (by simp [(Token.tokens_of_leaf? h).2])
  | @node t l r hl hr left right ihl ihr =>
    by_cases hpower : g.power o.kind ≤ g.power t.kind
    · exact hroot (.node hl hr left right) (by simpa [rootPower?] using hpower)
    · obtain ⟨r', hr', htokens, hroots⟩ := ihr
      refine ⟨.infixOp t l t.value r', .node hl hr' left fun q hq => ?_, ?_, ?_⟩
      · rcases hroots q hq with rfl | hq
        · exact Nat.lt_of_not_le hpower
        · exact right q hq
      · rw [tokens, tokens, htokens, List.append_assoc, List.cons_append]
      · simp [rootPower?]

end Expr.Grouped

/-- **Every chain has a tree.** -/
theorem Grammar.Chain.exists_grouped {g : Grammar} {ts : List Token} (h : g.Chain ts) :
    ∃ e : Expr, e.Grouped g ∧ e.tokens = ts := by
  induction h with
  | operand ha =>
    obtain ⟨e, he⟩ := Option.isSome_iff_exists.1 ha
    exact ⟨e, .leaf he, (Token.tokens_of_leaf? he).1⟩
  | snoc _ _ ha ih =>
    obtain ⟨e, he, rfl⟩ := ih
    obtain ⟨e', he', htokens, -⟩ := he.snoc ha
    exact ⟨e', he', htokens⟩

/-! ### Reading -/

/-- No operator binds more tightly than an index. -/
theorem Power.rank_le (q : Power) : q.rank ≤ Power.index.rank := by cases q <;> decide

section

variable {σ : Type} [TokenSource σ] {g : Grammar} {e l r : Expr} {bp q : Power} {p s : Parser σ}
  {room : Nat}

/-- Where nothing more is taken in, what was read so far is the expression. -/
theorem run_exprAt_of_extend
    (h : (exprUnder (exprAt room) bp).run p.enterExpr = (extend (exprAt room) bp e).run s)
    (hs : nextRule bp s = none) : (exprAt (room + 1) bp).run p = (some e, s.exitExpr) := by
  rw [run_extend, hs] at h
  simp only [exprAt, inExpr, h]

/-- **One operator and its right operand** are taken in by what was read so far. -/
theorem run_extend_of_binary (hs : p.peek.kind ≠ .mark .semicolon)
    (hrule : p.grammar.infixRule p.peek.kind = some (q, .binary)) (hq : bp < q)
    (h : (exprAt room q).run p.advance.advance = (some r, s)) :
    (extend (exprAt room) bp l).run p =
      (extend (exprAt room) bp (.infixOp p.peek l p.peek.value r)).run s := by
  have hpower : p.grammar.power p.peek.kind = q := Grammar.power_of_infixRule hrule
  have hbinary : (applyInfix (exprAt room) .binary l).run p.advance =
      (some (.infixOp p.peek l p.peek.value r), s) := by
    calc (applyInfix (exprAt room) .binary l).run p.advance
      _ = ((exprAt room (p.grammar.power p.peek.kind)).toAction >>= fun right =>
            pure (.infixOp p.peek l p.peek.value right)).run p.advance.advance := rfl
      _ = (some (.infixOp p.peek l p.peek.value r), s) := by rw [hpower, run_bind, h]; rfl
  rw [run_extend, nextRule_of_lt hs hrule hq]
  simp only [run_bind, hbinary]

/-- **A tree is read up to its last token** by a call that its root binds more tightly than, and is
the left operand of what follows.  A call at a higher power needs less room. -/
theorem Expr.Grouped.reads (h : e.Grouped g)
    (hstarts : g.prefixRule = Grammar.standard.prefixRule)
    (hsemicolon : g.infixRule (.mark .semicolon) = none)
    (hops : ∀ o ∈ seconds e.tokens, g.Operates o.kind) {u : Window σ} (hg : p.grammar = g)
    (hreads : p.window.Reads e.tokens u) (hroom : Power.index.rank ≤ room + bp.rank)
    (hbp : ∀ q ∈ e.rootPower? g, bp < q)
    (hu : u.current.kind = .mark .semicolon ∨
      ∀ q ∈ e.rootPower? g, g.power u.current.kind ≤ q) :
    ∃ q, (exprUnder (exprAt room) bp).run p = (extend (exprAt room) bp e).run q ∧ p.Quiet q ∧
      e.tokens.getLast? = some q.current ∧ q.window.advance = u := by
  induction h generalizing room bp p u with
  | @leaf t e h =>
    obtain ⟨htokens, -⟩ := Token.tokens_of_leaf? h
    rw [htokens] at hreads ⊢
    obtain ⟨rfl, hu'⟩ := reads_cons_iff.1 hreads
    refine ⟨p, ?_, .refl p, rfl, (reads_nil_iff.1 hu').symm⟩
    have hoperand := Token.run_operandAction_of_leaf? (exprAt room) (hg ▸ hstarts) h
    rw [exprUnder, run_bind, hoperand]
  | @node t l r hl hr left right ihl ihr =>
    have hsplit : seconds (l.tokens ++ t :: r.tokens) =
        seconds l.tokens ++ t :: seconds r.tokens := seconds_append hl.length
    rw [tokens, hsplit, List.forall_mem_append, List.forall_mem_cons] at hops
    obtain ⟨hopsl, ⟨q, hrule, -⟩, hopsr⟩ := hops
    have hpower : g.power t.kind = q := Grammar.power_of_infixRule hrule
    have hroot : (Expr.infixOp t l t.value r).rootPower? g = some q := congrArg some hpower
    rw [hpower] at left right
    simp only [hroot, Option.mem_some_iff, forall_eq'] at hbp hu
    rw [tokens] at hreads ⊢
    obtain ⟨m, hm, htu⟩ := reads_append_iff.1 hreads
    obtain ⟨rfl, hru⟩ := reads_cons_iff.1 htu
    -- the left operand, by the same call
    obtain ⟨p₁, hrun₁, hquiet₁, -, rfl⟩ := ihl hopsl hg hm hroom
      (fun k hk => Nat.lt_of_lt_of_le hbp (left k hk)) (.inr fun k hk => hpower ▸ left k hk)
    have hg₁ : p₁.grammar = g := hquiet₁.grammar.trans hg
    have hs : p₁.peek.kind ≠ .mark .semicolon := fun hs => by
      have hnone : g.infixRule p₁.peek.kind = none := hs ▸ hsemicolon
      cases hnone.symm.trans hrule
    -- the right operand, by a call one level deeper
    have hrank : bp.rank < q.rank := hbp
    obtain ⟨deeper, rfl⟩ : ∃ n, room = n + 1 := by
      have hmax := q.rank_le
      exact Nat.exists_eq_succ_of_ne_zero (by omega)
    have hlevels : Power.index.rank ≤ deeper + q.rank := by omega
    obtain ⟨p₂, hrun₂, hquiet₂, hlast, rfl⟩ := ihr hopsr (p := p₁.advance.advance.enterExpr)
      hg₁ hru hlevels right
      (hu.imp_right fun hu k hk => Nat.le_trans hu (Nat.le_of_lt (right k hk)))
    have hstop : nextRule q p₂ = none := by
      rw [nextRule_eq_none_iff, hquiet₂.grammar]
      exact hg₁ ▸ hu
    refine ⟨p₂.exitExpr, ?_, ⟨hquiet₂.grammar.trans hquiet₁.grammar,
      hquiet₂.errors.trans hquiet₁.errors⟩, ?_, rfl⟩
    · rw [hrun₁]
      exact run_extend_of_binary hs (hg₁ ▸ hrule) hbp (run_exprAt_of_extend hrun₂ hstop)
    · rw [List.getLast?_append, List.getLast?_cons, hlast]
      rfl

end

/-- **A chain of operators is read as the one tree over it,** without an error and up to its last
token, whatever its length, if there is room for eight more levels. -/
theorem expression_chain {σ : Type} [TokenSource σ] {p : Parser σ} {ts : List Token}
    {u : Window σ} (hg : p.grammar.Registers) (hts : p.grammar.Chain ts)
    (hreads : p.window.Reads ts u) (hu : u.current.kind = .mark .semicolon)
    (hdepth : p.exprDepth ≤ nestingLimit - 8) :
    ∃ e q, (expression .lowest).run p = (some e, q) ∧ q.errors = p.errors ∧
      ts.getLast? = some q.current ∧ q.window.advance = u ∧
      (e.Grouped p.grammar ∧ e.tokens = ts) ∧
      ∀ e' : Expr, e'.Grouped p.grammar → e'.tokens = ts → e' = e := by
  -- any tree over the chain is the one that is read
  have hread (e : Expr) (he : e.Grouped p.grammar) (htokens : e.tokens = ts) :
      ∃ q, (expression .lowest).run p = (some e, q) ∧ q.errors = p.errors ∧
        ts.getLast? = some q.current ∧ q.window.advance = u := by
    subst htokens
    obtain ⟨room, hroom⟩ : ∃ room, nestingLimit - p.exprDepth = room + 1 :=
      Nat.exists_eq_succ_of_ne_zero (by simp only [nestingLimit] at hdepth ⊢; omega)
    have hlevels : Power.index.rank ≤ room + Power.lowest.rank := by
      simp only [nestingLimit, Power.rank] at hdepth hroom ⊢
      omega
    obtain ⟨q, hrun, hquiet, hlast, hq⟩ := he.reads hg.prefixRule_eq hg.infixRule_semicolon
      hts.operates (p := p.enterExpr) rfl hreads
      hlevels (he.lowest_lt hts.operates) (.inl hu)
    have hstop : nextRule .lowest q = none :=
      nextRule_eq_none_iff.2 (.inl (by subst hq; exact hu))
    refine ⟨q.exitExpr, ?_, hquiet.errors, hlast, hq⟩
    have hrun' := run_exprAt_of_extend hrun hstop
    rwa [← hroom] at hrun'
  obtain ⟨e, he, htokens⟩ := hts.exists_grouped
  obtain ⟨q, hrun, herrors, hlast, hq⟩ := hread e he htokens
  refine ⟨e, q, hrun, herrors, hlast, hq, ⟨he, htokens⟩, fun e' he' htokens' => ?_⟩
  obtain ⟨q', hrun', -⟩ := hread e' he' htokens'
  rw [hrun] at hrun'
  exact (Option.some.inj (congrArg Prod.fst hrun')).symm

/-- The grammar in which `:` is an operator that binds as tightly as `*`. -/
def colonGrammar : Grammar := Grammar.standard.withInfix (.mark .colon) .product .binary

/-- The tokens of `a == 1 : b`, none of them placed in a text. -/
def colonChain : List Token :=
  [⟨.identifier, "a", .null⟩, ⟨.mark .equals, "==", .null⟩, ⟨.integer, "1", .null⟩,
    ⟨.mark .colon, ":", .null⟩, ⟨.identifier, "b", .null⟩]

/-- A parser at the first of them, where `;` comes after the last. -/
def colonParser : Parser Stream :=
  { Parser.start (Stream.ofList (colonChain ++ [⟨.mark .semicolon, ";", .null⟩])) with
    grammar := colonGrammar }

/-- The hypotheses of `expression_chain` are satisfiable by a chain with an operator of its own: `a
== 1 : b` is read as one tree over its five tokens, without an error. -/
theorem expression_chain_colon :
    colonGrammar.Registers ∧ colonGrammar.Chain colonChain ∧
      ∃ e q, (expression .lowest).run colonParser = (some e, q) ∧ q.errors = [] ∧
        e.Grouped colonGrammar ∧ e.tokens = colonChain := by
  have hg : colonGrammar.Registers := .operator _ _ (by decide) .standard
  have hchain : colonGrammar.Chain colonChain :=
    .snoc (.snoc (.operand (by decide)) ⟨.equals, rfl, by decide⟩ (by decide +kernel))
      ⟨.product, rfl, by decide⟩ (by decide)
  have hreads : colonParser.window.Reads colonChain
      colonParser.window.advance.advance.advance.advance.advance :=
    .cons (.cons (.cons (.cons (.cons (.nil _)))))
  obtain ⟨e, q, hrun, herrors, -, -, ⟨he, htokens⟩, -⟩ :=
    expression_chain (p := colonParser) hg hchain hreads rfl (by decide)
  exact ⟨hg, hchain, e, q, hrun, herrors, he, htokens⟩

end MonkeySyntax
