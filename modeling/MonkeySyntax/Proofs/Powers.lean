/-
# The power says only where an expression ends

An expression is an operand and rounds of infix rules, and the power that is asked for is looked at
between the rounds alone.  So of two powers the looser one reads what the tighter one reads, round
by round, and where the tighter one is done it goes on from there (`expression_goes_on`):

| the tighter power | the looser power |
| --- | --- |
| fails | fails in the same way |
| is done with `left` | goes on with `left` for its left operand |

Each further round takes what was read so far as its left operand.  What the tighter power made is
therefore where the looser one's tree begins, if that makes one (`Expr.Begins`), and its tokens are
the first ones of that tree.  This holds of every grammar and from every parser.
-/

import MonkeySyntax.Proofs.Leads
import MonkeySyntax.Proofs.Nesting
import MonkeySyntax.Proofs.Standard
import MonkeySyntax.Tree.Parts

namespace MonkeySyntax

/-- The expression `l` is where `e` begins: it is `e`, or where the left operand of `e`, its callee
or what it indexes begins. -/
inductive Expr.Begins (l : Expr) : Expr → Prop
  | self : Begins l l
  | infixOp {t : Token} {left right : Expr} {operator : String} :
    Begins l left → Begins l (.infixOp t left operator right)
  | call {t : Token} {callee : Expr} {arguments : List Expr} :
    Begins l callee → Begins l (.call t callee arguments)
  | index {t : Token} {left i : Expr} : Begins l left → Begins l (.index t left i)

/-- **Where an expression begins are the first of its tokens.** -/
theorem Expr.Begins.tokens {l e : Expr} (h : l.Begins e) : l.tokens <+: e.tokens := by
  induction h with
  | self => exact List.prefix_rfl
  | infixOp _ ih | call _ ih | index _ ih => exact ih.trans (List.prefix_append _ _)

namespace Parsing

open MonkeySyntax.Action

variable {σ : Type} [TokenSource σ] {b c : Power}

omit [TokenSource σ] in
/-- Where the tighter power goes on, the looser one does so by the same rule. -/
theorem nextRule_of_le {p : Parser σ} {rule : InfixRule} (hbc : b ≤ c)
    (h : nextRule c p = some rule) : nextRule b p = some rule := by
  have hs : p.peek.kind ≠ .mark .semicolon := by
    intro hs
    rw [nextRule, if_pos hs] at h
    cases h
  obtain ⟨q, hrule, hlt⟩ := infixRule_of_nextRule h
  have hb : b < q := Nat.lt_of_le_of_lt hbc hlt
  exact nextRule_of_lt hs hrule hb

section

variable (expr : Power → Phrase σ Expr)

/-- A round of an extension that goes on. -/
theorem run_extend_of_some {bp : Power} (left : Expr) {p : Parser σ} {rule : InfixRule}
    (hn : nextRule bp p = some rule) :
    (extend expr bp left).run p =
      ((applyInfix expr rule left).toAction >>= extend expr bp).run p.advance := by
  rw [run_extend, hn]

/-- **The rounds of the looser power** are those of the tighter one and then its own. -/
theorem run_extend_of_le (hbc : b ≤ c) (left : Expr) (p : Parser σ) :
    (extend expr b left).run p = (extend expr c left >>= extend expr b).run p := by
  rw [run_bind]
  simp only [extend]
  -- along the rounds of the tighter power, each of which is one of the looser power too
  fun_induction extendFrom expr c left p with
  | case1 => rfl
  | case2 left p rule hn q hr =>
    have hround := run_extend_of_some expr left (nextRule_of_le hbc hn)
    rw [run_bind, hr] at hround
    exact hround
  | case3 left p rule hn e q hr ih =>
    have hround := run_extend_of_some expr left (nextRule_of_le hbc hn)
    rw [run_bind, hr] at hround
    exact hround.trans ih

/-- **An expression of the looser power** is one of the tighter power and further rounds. -/
theorem run_exprUnder_of_le (hbc : b ≤ c) (p : Parser σ) :
    (exprUnder expr b).run p = ((exprUnder expr c).toAction >>= extend expr b).run p := by
  have hlooser : (exprUnder expr b).run p = (operandAction expr >>= extend expr b).run p := rfl
  have htighter : (exprUnder expr c).run p = (operandAction expr >>= extend expr c).run p := rfl
  rw [hlooser, run_bind, run_bind, htighter, run_bind]
  rcases (operandAction expr).run p with ⟨_ | left, q⟩
  · rfl
  · exact run_extend_of_le expr hbc left q

/-- An infix rule makes a tree that begins with the left operand. -/
theorem applyInfix_begins (rule : InfixRule) {l left : Expr} (hl : l.Begins left) :
    (applyInfix expr rule left).Makes fun e => l.Begins e := by
  cases rule with
  | binary =>
    exact makes_then fun _ => makes_then fun _ => makes_then fun _ => makes_then fun _ =>
      makes_pure (.infixOp hl)
  | call => exact makes_then fun _ => makes_then fun _ => makes_pure (.call hl)
  | index =>
    exact makes_then fun _ => makes_then fun _ => makes_then fun _ => makes_then fun _ =>
      makes_pure (.index hl)

/-- However often it is extended, a tree begins with what there was first. -/
theorem extend_begins (bp : Power) (left : Expr) :
    (extend expr bp left).Makes fun e => left.Begins e := fun p =>
  (ends_extend (I := fun e _ => left.Begins e) (B := fun _ => True)
    (fun _ q rule he _ => applyInfix_begins expr rule he q.advance) left p .self).imp
      fun _ _ he => he.1

end

end Parsing

open MonkeySyntax.Action MonkeySyntax.Parsing

variable {σ : Type} [TokenSource σ] {b c : Power}

/-- What `a` reads from `p` is an initial part of what `a'` reads from there: where `a` fails, `a'`
fails in the same way, and where `a` has a result, `a'` goes on from there, to a tree that begins
with it or to a failure. -/
def Action.Initial (a a' : Action σ Expr) (p : Parser σ) : Prop :=
  a.Ends p (fun l q => a'.Ends p (fun e r => l.Begins e ∧ q.Leads r) q.Leads)
    fun q => a'.run p = (none, q)

/-- It does not matter inside of how many expressions that is. -/
theorem Action.Initial.inExpr {a a' : Action σ Expr} {p : Parser σ}
    (h : a.Initial a' p.enterExpr) : a.inExpr.Initial a'.inExpr p := by
  unfold Initial
  rw [ends_inExpr]
  refine Ends.mono h (fun l q hq => ?_) fun q hq => ?_
  · rw [ends_inExpr]
    exact hq.mono (fun e r hr => ⟨hr.1, hr.2.exitExpr⟩) fun r hr => hr.exitExpr
  · simp only [Action.inExpr, hq]

namespace Parsing

/-- What a tighter power reads is an initial part of what a looser one does, as the looser one goes
on from there with further rounds. -/
theorem exprUnder_initial {expr : Power → Phrase σ Expr}
    (hframe : ∀ bp, Law.frame.Follows (expr bp).toAction) (hbc : b ≤ c) (p : Parser σ) :
    (exprUnder expr c).Initial (exprUnder expr b).toAction p := by
  have hsplit := run_exprUnder_of_le expr hbc p
  rw [run_bind] at hsplit
  unfold Initial
  rw [ends_iff]
  refine ⟨fun l q hq => ?_, fun q hq => ?_⟩
  · rw [hq] at hsplit
    have hleads := Law.follows_extend hframe b l q
    unfold Ends
    rw [hsplit]
    exact ((extend_begins expr b l q).and hleads).mono (fun _ _ h => h) fun _ h => h.2.1
  · rw [hq] at hsplit
    exact hsplit

/-- So it is for expressions with any room. -/
theorem exprAt_initial (room : Nat) (hbc : b ≤ c) (p : Parser σ) :
    (exprAt room c).Initial (exprAt room b).toAction p := by
  cases room with
  | zero => rfl
  | succ room => exact (exprUnder_initial (Law.frame.follows_exprAt room) hbc p.enterExpr).inExpr

/-- So it is for expressions at whatever depth the parser is. -/
theorem expression_initial (hbc : b ≤ c) (p : Parser σ) :
    (expression c).Initial (expression b).toAction p :=
  exprAt_initial (nestingLimit - p.exprDepth) hbc p

end Parsing

/-- **The power says only where an expression ends.**  Whatever reads the expressions inside of it,
an expression of the looser power is one of the tighter power and, if that has a result `left`, the
rounds of the looser power from `left` on: the result and all of the parser after it are the same,
whether the rounds end at a `;`, at a power, at a token without a rule, or in a failure.  So where
the tighter power fails the looser one does too, at the same parser, and where it reads `l` up to
the parser `q`, the looser one goes on from `q` and what it reads begins with `l`.  Neither the
grammar nor the parser matters. -/
theorem expression_goes_on {σ : Type} [TokenSource σ] {b c : Power} (hbc : b ≤ c)
    (p : Parser σ) :
    (∀ expr : Power → Phrase σ Expr,
      (exprUnder expr b).run p =
        match (exprUnder expr c).run p with
        | (some left, q) => (extend expr b left).run q
        | (none, q) => (none, q)) ∧
    (∀ q, (expression c).run p = (none, q) → (expression b).run p = (none, q)) ∧
    ∀ l q, (expression c).run p = (some l, q) →
      (expression b).Ends p (fun e r => l.Begins e ∧ l.tokens <+: e.tokens ∧ q.Leads r)
        q.Leads := by
  have hinitial := ends_iff.1 (expression_initial hbc p)
  refine ⟨fun expr => ?_, hinitial.2, fun l q hrun => ?_⟩
  · rw [run_exprUnder_of_le expr hbc p, run_bind]
    rcases (exprUnder expr c).run p with ⟨_ | left, q⟩ <;> rfl
  · exact (hinitial.1 l q hrun).imp fun e r hr => ⟨hr.1, hr.1.tokens, hr.2⟩

/-- A parser at `a * b + c`. -/
def productThenSum : Parser Stream :=
  Parser.start (Stream.ofList
    [⟨.identifier, "a", .null⟩, ⟨.mark .star, "*", .null⟩, ⟨.identifier, "b", .null⟩,
      ⟨.mark .plus, "+", .null⟩, ⟨.identifier, "c", .null⟩])

/-- At the power of `+` only the product is read, and at the lowest one it is the left operand of
the sum. -/
theorem expression_goes_on_sum : Power.lowest ≤ Power.sum ∧ ∃ l q e r,
    (expression .sum).run productThenSum = (some l, q) ∧
      l.tokens.map (·.value) = ["a", "*", "b"] ∧ q.current.value = "b" ∧
      (expression .lowest).run productThenSum = (some e, r) ∧
      e.tokens.map (·.value) = ["a", "*", "b", "+", "c"] ∧
      l.Begins e ∧ l.tokens <+: e.tokens ∧ q.Leads r := by
  have hlooser : Power.lowest ≤ Power.sum := by decide
  have htight : ((expression .sum).run productThenSum).1.map (fun e => e.tokens.map (·.value)) =
      some ["a", "*", "b"] := by decide +kernel
  have hloose : ((expression .lowest).run productThenSum).1.map (fun e => e.tokens.map (·.value)) =
      some ["a", "*", "b", "+", "c"] := by decide +kernel
  have hcurrent : ((expression .sum).run productThenSum).2.current.value = "b" := by
    decide +kernel
  obtain ⟨l, hl, hltokens⟩ := Option.map_eq_some_iff.1 htight
  obtain ⟨e, he, hetokens⟩ := Option.map_eq_some_iff.1 hloose
  have hrun := Prod.ext (y := (_, ((expression .sum).run productThenSum).2)) hl rfl
  have hrun' := Prod.ext (y := (_, ((expression .lowest).run productThenSum).2)) he rfl
  have hends := (expression_goes_on hlooser productThenSum).2.2 l _ hrun
  exact ⟨hlooser, l, _, e, _, hrun, hltokens, hcurrent, hrun', hetokens, hends.of_some hrun'⟩

end MonkeySyntax
