/-
# Two runs through expressions

Whatever the room, the readers of expressions of two runs track each other (`tracks_expression`),
since every rule of the grammar does if the readers one level deeper do.  An operand or an operator
stands at a token that has a rule, and a `;` has none, so no rule begins where the runs may part.
-/

import MonkeySyntax.Proofs.Pairing.Statements

namespace MonkeySyntax
namespace Pairing

open MonkeySyntax.Action MonkeySyntax.Parsing

variable {σ τ : Type} [TokenSource σ] [TokenSource τ] {P : Pairing σ τ} {p : Parser σ}
  {p' : Parser τ}

/-- Names and literals are tracked by those that the second run finds, numbers with the same value.
-/
theorem tracks_primary :
    P.Tracks P.expr P.Abreast P.Amid (primary : Phrase σ Expr).toAction
      (primary : Phrase τ Expr).toAction := by
  refine ⟨Law.follows_primary, fun p p' hp => ?_⟩
  have hamid : ∀ k, p.current.kind = k → k ≠ .mark .semicolon → P.Amid p p' :=
    fun k hk hne => ⟨hp, by rwa [hk]⟩
  simp only [Runs, primary, primaryAction, run_current_bind, hp.current_kind]
  split
  · rename_i hk
    exact .inr ⟨by rw [hp.current]; rfl, hamid _ hk (by decide)⟩
  · rename_i hk
    rw [hp.current, P.int64_swap hp.seen hk]
    split
    · exact .inr ⟨rfl, hamid _ hk (by decide)⟩
    · exact .inr (hp.report .range hp.seen)
  · rename_i hk
    exact .inr ⟨by rw [hp.current]; rfl, hamid _ hk (by decide)⟩
  · rename_i hk
    exact .inr ⟨by rw [hp.current]; rfl, hamid _ hk (by decide)⟩
  · rename_i hk
    exact .inr ⟨by rw [hp.current]; rfl, hamid _ hk (by decide)⟩
  · exact .inr (hp.report_current .noPrefix)

section

variable {expr : Power → Phrase σ Expr} {expr' : Power → Phrase τ Expr}
  (h : ∀ bp, P.Tracks P.expr P.Abreast P.Amid (expr bp).toAction (expr' bp).toAction)

include h

/-- An alternative is tracked by an alternative, or none by none. -/
theorem tracks_alternative (hstrict : ∀ {w : Window σ} {v : Window τ}, P.parts w v → P.strict) :
    P.Tracks (Option.map P.block) P.Amid P.Amid (alternative expr) (alternative expr') := by
  refine .ite_peekIs ?_ (tracks_pure rfl)
  exact (tracks_onto (by decide)).bind fun _ => (tracks_expect (by decide)).bind fun _ =>
    (tracks_block hstrict h).bind fun _ => tracks_pure rfl

/-- **A prefix rule runs alike on both sides.**  Blocks are met in conditionals and functions only,
so it is said of a token with that rule and not of every place. -/
theorem runs_applyPrefix {rule : PrefixRule} (hp : P.Abreast p p')
    (hrule : Grammar.standard.prefixRule p.current.kind = some rule) :
    P.Runs P.expr P.Amid (applyPrefix expr rule).toAction (applyPrefix expr' rule).toAction p
      p' := by
  have hkinds := Grammar.mem_kinds hrule
  have hamid : P.Amid p p' := by
    refine ⟨hp, fun hs => ?_⟩
    rw [hs] at hrule
    cases hrule
  have hcurrent : P.Tracks P.swap P.Amid P.Amid current current :=
    tracks_current fun _ _ h => h.toAbreast
  cases rule with
  | primary => exact tracks_primary.runs p p' hp
  | operator =>
    refine Tracks.runs (R := P.Amid) ?_ p p' hamid
    exact hcurrent.bind fun _ => tracks_advance.bind fun _ => (h _).bind fun _ => tracks_pure rfl
  | grouping =>
    refine Tracks.runs (R := P.Amid) ?_ p p' hamid
    exact tracks_advance.bind fun _ => (h _).bind fun _ => (tracks_expect (by decide)).bind fun _ =>
      tracks_pure rfl
  | conditional =>
    have hword : p.current.kind = .keyword .ifWord := by simpa [PrefixRule.kinds] using hkinds
    have hstrict {w : Window σ} {v : Window τ} : P.parts w v → P.strict :=
      P.parts_block hp.meets (.inl hword)
    refine Tracks.runs (R := P.Amid) ?_ p p' hamid
    refine hcurrent.bind fun t => tracks_advance.bind fun _ => (h _).bind fun e =>
      (tracks_expect (by decide)).bind fun _ => (tracks_block hstrict h).bind fun b =>
        (tracks_alternative h hstrict).bind fun a => tracks_pure ?_
    cases a <;> rfl
  | function =>
    have hword : p.current.kind = .keyword .fnWord := by simpa [PrefixRule.kinds] using hkinds
    have hstrict {w : Window σ} {v : Window τ} : P.parts w v → P.strict :=
      P.parts_block hp.meets (.inr hword)
    refine Tracks.runs (R := P.Amid) ?_ p p' hamid
    exact hcurrent.bind fun _ => tracks_parameters.bind fun _ =>
      (tracks_expect (by decide)).bind fun _ => (tracks_block hstrict h).bind fun _ =>
        tracks_pure rfl
  | array =>
    refine Tracks.runs (R := P.Amid) ?_ p p' hamid
    refine hcurrent.bind fun t => (tracks_expressions h (by decide)).bind fun es => tracks_pure ?_
    rw [Pairing.expr, Expr.map, Expr.mapAll_eq]
  | hash =>
    refine Tracks.runs (R := P.Amid) ?_ p p' hamid
    refine hcurrent.bind fun t => (tracks_pairs h).bind fun ps => tracks_pure ?_
    rw [Pairing.expr, Expr.map, Expr.mapPairs_eq]

/-- An infix rule is tracked by the same rule, with what the left operand is tracked by. -/
theorem tracks_applyInfix (rule : InfixRule) (left : Expr) :
    P.Tracks P.expr P.Amid P.Amid (applyInfix expr rule left).toAction
      (applyInfix expr' rule (P.expr left)).toAction := by
  have hcurrent : P.Tracks P.swap P.Amid P.Amid current current :=
    tracks_current fun _ _ h => h.toAbreast
  cases rule with
  | binary =>
    exact hcurrent.bind fun _ => tracks_currentPower.bind fun _ => tracks_advance.bind fun _ =>
      (h _).bind fun _ => tracks_pure rfl
  | call =>
    refine hcurrent.bind fun t => (tracks_expressions h (by decide)).bind fun es => tracks_pure ?_
    rw [Pairing.expr, Expr.map, Expr.mapAll_eq]
  | index =>
    exact hcurrent.bind fun _ => tracks_advance.bind fun _ => (h _).bind fun _ =>
      (tracks_expect (by decide)).bind fun _ => tracks_pure rfl

/-- **An extension tracks an extension:** both take in the same operators. -/
theorem tracks_extend (bp : Power) (left : Expr) :
    P.Tracks P.expr P.Amid P.Amid (extend expr bp left) (extend expr' bp (P.expr left)) := by
  have hlaw : ∀ e, Law.frame.Follows (extend expr bp e) :=
    Law.follows_extend (fun bp => (h bp).frame) bp
  refine ⟨hlaw left, fun p p' hp => ?_⟩
  -- each operator leaves fewer tokens, so those after it are tracked by induction on these
  induction hn : p.window.ahead using Nat.strongRecOn generalizing left p p' with
  | ind n ih =>
    subst hn
    rw [Runs, run_extend, run_extend, hp.nextRule]
    cases hrule : nextRule bp p with
    | none => exact .inr ⟨rfl, hp⟩
    | some rule =>
      have honto : P.Amid p.advance p'.advance := by
        refine hp.onto rfl fun hs => ?_
        rw [nextRule, if_pos hs] at hrule
        cases hrule
      have hround := (tracks_applyInfix h rule left).runs p.advance p'.advance honto
      refine (hround.and (Q := fun q => q.window.ahead < p.window.ahead) fun e q hr => ?_).bind
        (fun e q q' hq => ih _ hq.2 e q q' hq.1 rfl) hlaw
      have honward := (applyInfix expr rule left).onward p.advance
      have hlands := (applyInfix expr rule left).lands p.advance e (by rw [hr])
      rw [hr] at honward hlands
      exact honward.ahead_lt hlands

/-- An operand is tracked by an operand, since the same rule is for both tokens. -/
theorem tracks_operandAction :
    P.Tracks P.expr P.Abreast P.Amid (operandAction expr) (operandAction expr') := by
  refine ⟨Law.follows_operandAction fun bp => (h bp).frame, fun p p' hp => ?_⟩
  simp only [Runs, operandAction, hp.current_kind, hp.prefixRule_current, hp.grammar]
  split
  · rename_i rule hrule
    exact runs_applyPrefix h hp hrule
  · exact .inr (hp.report_current .noPrefix)

/-- An expression is tracked if those inside of it are. -/
theorem tracks_exprUnder (bp : Power) :
    P.Tracks P.expr P.Abreast P.Amid (exprUnder expr bp).toAction (exprUnder expr' bp).toAction :=
  (tracks_operandAction h).bind fun left => tracks_extend h bp left

end

/-- **Every expression is tracked by an expression,** by induction on the room. -/
theorem tracks_exprAt (room : Nat) (bp : Power) :
    P.Tracks P.expr P.Abreast P.Amid (exprAt room bp : Phrase σ Expr).toAction
      (exprAt room bp : Phrase τ Expr).toAction := by
  induction room generalizing bp with
  | zero => exact ⟨Law.frame.follows_exprAt 0 bp, fun _ _ hp => .inr (hp.report_current .tooDeep)⟩
  | succ room ih => exact (tracks_exprUnder ih bp).inExpr

/-- **Whatever two runs read as an expression, they read alike.** -/
theorem tracks_expression (bp : Power) :
    P.Tracks P.expr P.Abreast P.Amid (expression bp : Phrase σ Expr).toAction
      (expression bp : Phrase τ Expr).toAction := by
  refine ⟨Law.frame.follows_expression bp, fun p p' hp => ?_⟩
  have hroom := (tracks_exprAt (nestingLimit - p.exprDepth) bp).runs p p' hp
  simp only [Runs, expression, hp.exprDepth]
  exact hroom

end Pairing
end MonkeySyntax
