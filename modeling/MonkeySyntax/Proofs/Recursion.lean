/-
# The depth check

Where an expression starts, a parser checks how deep it is, counts one expression more, reads, and
counts one less.  `expression` does not look like this: it works out the room that is left when it
is entered, and the expressions inside of it get one less (`exprAt`).  The two are the same, because
count and room always add up to `nestingLimit`: whatever is read between two expressions leaves the
count as it was.  So `expression` is a recursion with the check at each of its calls
(`run_expression`).

To put one reader for another where they are called, two actions are compared at one depth only
(`Action.SameAt`).  If two readers of expressions are the same at a depth, then so is every rule
that reads by the one or by the other.
-/

import MonkeySyntax.Proofs.Leads

namespace MonkeySyntax

variable {σ : Type} [TokenSource σ] {α β : Type}

/-- Two actions do the same to every parser that is inside of `d` expressions, and leave it so. -/
structure Action.SameAt (d : Nat) (a b : Action σ α) : Prop where
  run_eq (p : Parser σ) : p.exprDepth = d → a.run p = b.run p
  exprDepth (p : Parser σ) : p.exprDepth = d → (a.run p).2.exprDepth = d

/-- A parser takes a `;` without being inside of more expressions, or fewer. -/
theorem Parser.exprDepth_skipSemicolon (p : Parser σ) (failed : Bool) :
    (p.skipSemicolon failed).exprDepth = p.exprDepth := by
  rcases p.skipSemicolon_eq failed with h | h <;> rw [h]
  rfl

/-- What leaves the depths as they were does the same as itself at each of them. -/
theorem Law.Follows.sameAt {a : Action σ α} (h : Law.frame.Follows a) (d : Nat) : a.SameAt d a where
  run_eq _ _ := rfl
  exprDepth p hp := (h.leads p).exprDepth.trans hp

namespace Action.SameAt

open MonkeySyntax.Action

variable {d : Nat} {a b : Action σ α}

/-! ### Actions put together -/

/-- How the first action ends says what the second does. -/
theorem of_ends (h : ∀ p, p.exprDepth = d →
    a.Ends p (fun x q => b.run p = (some x, q) ∧ q.exprDepth = d)
      fun q => b.run p = (none, q) ∧ q.exprDepth = d) : a.SameAt d b := by
  have hboth (p : Parser σ) (hp : p.exprDepth = d) :
      a.run p = b.run p ∧ (a.run p).2.exprDepth = d := by
    have hends := ends_iff.1 (h p hp)
    rcases ha : a.run p with ⟨_ | x, q⟩
    · exact ⟨(hends.2 q ha).1.symm, (hends.2 q ha).2⟩
    · exact ⟨(hends.1 x q ha).1.symm, (hends.1 x q ha).2⟩
  exact ⟨fun p hp => (hboth p hp).1, fun p hp => (hboth p hp).2⟩

/-- Where the first action ends, the second one does, and no deeper. -/
theorem ends (h : a.SameAt d b) {p : Parser σ} (hp : p.exprDepth = d) :
    a.Ends p (fun x q => b.run p = (some x, q) ∧ q.exprDepth = d)
      fun q => b.run p = (none, q) ∧ q.exprDepth = d := by
  rw [ends_iff, ← h.run_eq p hp]
  have hdepth := h.exprDepth p hp
  exact ⟨fun x q ha => ⟨ha, by rwa [ha] at hdepth⟩, fun q ha => ⟨ha, by rwa [ha] at hdepth⟩⟩

/-- The same action, and then the same for each of its results. -/
theorem bind {f g : α → Action σ β} (h : a.SameAt d b) (hf : ∀ x, (f x).SameAt d (g x)) :
    (a >>= f).SameAt d (b >>= g) := .of_ends fun p hp => by
  refine (ends_bind ..).2 <| (h.ends hp).mono (fun x q ⟨hb, hq⟩ => ?_) fun q ⟨hb, hq⟩ => ?_
  · rw [run_bind, hb]
    exact (hf x).ends hq
  · rw [run_bind, hb]
    exact ⟨rfl, hq⟩

/-- What comes after an action is compared for each of its results. -/
theorem after (h : Law.frame.Follows a) {f g : α → Action σ β}
    (hf : ∀ x, (f x).SameAt d (g x)) : (a >>= f).SameAt d (a >>= g) := (h.sameAt d).bind hf

/-- Past a `;` a parser is inside of the same expressions. -/
theorem thenSemicolon (h : a.SameAt d b) : (thenSemicolon a).SameAt d (thenSemicolon b) where
  run_eq p hp := by simp only [Action.thenSemicolon, h.run_eq p hp]
  exprDepth p hp := (Parser.exprDepth_skipSemicolon _ _).trans (h.exprDepth p hp)

/-- Attempts of the same actions are the same. -/
theorem attempt (h : a.SameAt d b) : (attempt a).SameAt d (attempt b) where
  run_eq p hp := by simp only [Action.attempt, h.run_eq p hp]
  exprDepth p hp := h.exprDepth p hp

/-- Statements that are noted are the same if they are. -/
theorem noted (h : a.SameAt d b) : (noted a).SameAt d (noted b) where
  run_eq p hp := by simp only [Action.noted, h.run_eq (p.note _) hp]
  exprDepth p hp := h.exprDepth (p.note _) hp

/-- Into a block and out of it, only the number of blocks changes. -/
theorem inBlock (h : a.SameAt d b) : (inBlock a).SameAt d (inBlock b) where
  run_eq p hp := by simp only [Action.inBlock, h.run_eq p.enterBlock hp]
  exprDepth p hp := h.exprDepth p.enterBlock hp

/-- The same round, repeated. -/
theorem many {go : Parser σ → Bool} {ha : Shrinks go a} {hb : Shrinks go b} (h : a.SameAt d b) :
    (many go a ha).SameAt d (many go b hb) := .of_ends fun p hp => by
  refine ends_many (P := fun p => p.exprDepth = d)
    (R := fun p xs q => (Action.many go b hb).run p = (some xs, q) ∧ q.exprDepth = d)
    (B := fun p q => (Action.many go b hb).run p = (none, q) ∧ q.exprDepth = d)
    (fun p hp hgo => ?_) (fun p hp hgo => ?_) p hp
  · exact ⟨by rw [run_many, if_neg (by simp [hgo])], hp⟩
  · refine (h.ends hp).mono (fun x q ⟨hr, hq⟩ => ?_) fun q ⟨hr, hq⟩ => ?_
    · refine ⟨hq, fun xs r _ ⟨hm, hd⟩ => ⟨?_, hd⟩, fun r ⟨hm, hd⟩ => ⟨?_, hd⟩⟩
      · rw [run_many, if_pos hgo, hr]
        simp only [hm]
      · rw [run_many, if_pos hgo, hr]
        simp only [hm]
    · exact ⟨by rw [run_many, if_pos hgo, hr], hq⟩

end Action.SameAt

namespace Parsing

open MonkeySyntax.Action MonkeySyntax.Law

/-! ### Rules -/

variable {d : Nat}

/-- What reads nothing is the same at every depth. -/
theorem sameAt_pure (x : α) : (pure x : Action σ α).SameAt d (pure x) := (follows_pure x).sameAt d

section

variable {expr other : Power → Phrase σ Expr}
  (h : ∀ bp, (expr bp).toAction.SameAt d (other bp).toAction)

include h

/-- A `return` has its value read in the same way, or none. -/
theorem sameAt_returnStatement : (returnStatement expr).SameAt d (returnStatement other) := by
  refine .after follows_current fun t => .after (follows_peekIs _) fun b => ?_
  split
  · exact .after follows_advance fun _ => sameAt_pure _
  · refine .after (follows_peekIs _) fun c => ?_
    split
    · exact sameAt_pure _
    · refine .after (follows_peekIs _) fun e => ?_
      split
      · exact sameAt_pure _
      · exact .after follows_advance fun _ => (h _).thenSemicolon.bind fun _ => sameAt_pure _

/-- A statement of any form has its expression read in the same way. -/
theorem sameAt_anyStatement : (anyStatement expr).SameAt d (anyStatement other) := by
  refine .after follows_current fun t => ?_
  split
  · exact .after follows_current fun _ => .after (follows_expect _) fun _ =>
      .after follows_currentName fun _ => .after (follows_expect _) fun _ =>
        .after follows_advance fun _ => (h _).thenSemicolon.bind fun _ => sameAt_pure _
  · exact sameAt_returnStatement h
  · exact .after follows_current fun _ => (h _).thenSemicolon.bind fun _ => sameAt_pure _

/-- The statements of a block are read at its depth, so a block is the same as well. -/
theorem sameAt_block : (block expr).toAction.SameAt d (block other).toAction := by
  have hitem : (blockItem expr).SameAt d (blockItem other) := by
    refine .after (follows_currentIs _) fun b => ?_
    split
    · exact (follows_reject _).sameAt d
    · exact (sameAt_anyStatement h).noted.attempt.bind fun s =>
        .after (follows_afterStatement s) fun _ => sameAt_pure _
  exact .after follows_current fun _ => .after follows_advance fun _ =>
    hitem.many.inBlock.bind fun _ => sameAt_pure _

/-- Lists of expressions are read in the same way, one by one. -/
theorem sameAt_expressions (close : Mark) :
    (expressions expr close).SameAt d (expressions other close) := by
  have hnext : (nextExpression expr).SameAt d (nextExpression other) :=
    .after follows_advance fun _ => .after follows_advance fun _ => h _
  refine .after (follows_peekIs _) fun b => ?_
  split
  · exact .after (follows_expect _) fun _ => sameAt_pure _
  · exact .after follows_advance fun _ => (h _).bind fun _ => hnext.many.bind fun _ =>
      .after (follows_expect _) fun _ => sameAt_pure _

/-- Keys and values are read in the same way. -/
theorem sameAt_pairs : (pairs expr).SameAt d (pairs other) := by
  have hkey : (key expr).SameAt d (key other) :=
    .after follows_advance fun _ => (h _).bind fun _ => .after (follows_expect _) fun _ =>
      sameAt_pure _
  have hpair : (pair expr).SameAt d (pair other) := by
    refine hkey.bind fun k => .after follows_advance fun _ => (h _).bind fun v =>
      .after (follows_peekIs _) fun b => ?_
    split
    · exact sameAt_pure _
    · exact .after (follows_expect _) fun _ => sameAt_pure _
  exact hpair.many.bind fun _ => .after (follows_expect _) fun _ => sameAt_pure _

/-- An alternative is the same, as its block is. -/
theorem sameAt_alternative : (alternative expr).SameAt d (alternative other) := by
  refine .after (follows_peekIs _) fun b => ?_
  split
  · exact .after follows_advance fun _ => .after (follows_expect _) fun _ =>
      (sameAt_block h).bind fun _ => sameAt_pure _
  · exact sameAt_pure _

/-- What a prefix rule reads, it reads in the same way. -/
theorem sameAt_applyPrefix (rule : PrefixRule) :
    (applyPrefix expr rule).toAction.SameAt d (applyPrefix other rule).toAction := by
  cases rule with
  | primary => exact follows_primary.sameAt d
  | operator =>
    exact .after follows_current fun _ => .after follows_advance fun _ => (h _).bind fun _ =>
      sameAt_pure _
  | grouping =>
    exact .after follows_advance fun _ => (h _).bind fun _ => .after (follows_expect _) fun _ =>
      sameAt_pure _
  | conditional =>
    exact .after follows_current fun _ => .after follows_advance fun _ => (h _).bind fun _ =>
      .after (follows_expect _) fun _ => (sameAt_block h).bind fun _ =>
        (sameAt_alternative h).bind fun _ => sameAt_pure _
  | function =>
    exact .after follows_current fun _ => .after follows_parameters fun _ =>
      .after (follows_expect _) fun _ => (sameAt_block h).bind fun _ => sameAt_pure _
  | array =>
    exact .after follows_current fun _ => (sameAt_expressions h _).bind fun _ => sameAt_pure _
  | hash => exact .after follows_current fun _ => (sameAt_pairs h).bind fun _ => sameAt_pure _

/-- What an infix rule reads, it reads in the same way. -/
theorem sameAt_applyInfix (rule : InfixRule) (left : Expr) :
    (applyInfix expr rule left).toAction.SameAt d (applyInfix other rule left).toAction := by
  cases rule with
  | binary =>
    exact .after follows_current fun _ => .after follows_currentPower fun _ =>
      .after follows_advance fun _ => (h _).bind fun _ => sameAt_pure _
  | call =>
    exact .after follows_current fun _ => (sameAt_expressions h _).bind fun _ => sameAt_pure _
  | index =>
    exact .after follows_current fun _ => .after follows_advance fun _ => (h _).bind fun _ =>
      .after (follows_expect _) fun _ => sameAt_pure _

/-- What was read so far is extended in the same way. -/
theorem sameAt_extend (bp : Power) (left : Expr) :
    (extend expr bp left).SameAt d (extend other bp left) := .of_ends fun p hp => by
  -- after some rounds, the whole extension by `other` is what is left of it
  refine (ends_extend
    (I := fun e q => (extend other bp left).run p = (extend other bp e).run q ∧ q.exprDepth = d)
    (B := fun q => (extend other bp left).run p = (none, q) ∧ q.exprDepth = d)
    ?round left p ⟨rfl, hp⟩).imp ?rest
  case round =>
    rintro e q rule ⟨hrest, hq⟩ hrule
    simp only [run_extend _ _ e, hrule, run_bind] at hrest
    refine ((sameAt_applyInfix h rule e).ends (p := q.advance) hq).mono ?_ ?_
    · rintro e' r ⟨hr, hd⟩
      exact ⟨by rw [hrest, hr], hd⟩
    · rintro r ⟨hr, hd⟩
      exact ⟨by rw [hrest, hr], hd⟩
  case rest =>
    rintro e q ⟨⟨hrest, hq⟩, hrule⟩
    simp only [run_extend _ _ e, hrule] at hrest
    exact ⟨hrest, hq⟩

/-- **Two readers that are the same at a depth** read the same expressions there. -/
theorem sameAt_exprUnder (bp : Power) :
    (exprUnder expr bp).toAction.SameAt d (exprUnder other bp).toAction := by
  have hoperand : (operandAction expr).SameAt d (operandAction other) := .of_ends fun p hp => by
    rw [ends_iff]
    simp only [operandAction]
    split
    · exact ends_iff.1 ((sameAt_applyPrefix h _).ends hp)
    · exact ends_iff.1 (((follows_reject Parser.noPrefix).sameAt d).ends hp)
  exact hoperand.bind fun left => sameAt_extend h bp left

end

/-- At the depth that leaves it its room, a reader is the one for expressions. -/
theorem sameAt_exprAt (room : Nat) (hroom : room ≤ nestingLimit) (bp : Power) :
    (exprAt room bp : Phrase σ Expr).toAction.SameAt (nestingLimit - room)
      (expression bp).toAction where
  run_eq p hp := by
    have hp' : nestingLimit - p.exprDepth = room := by omega
    simp only [expression, hp']
  exprDepth p hp := ((Law.frame.follows_exprAt room bp).leads p).exprDepth.trans hp

/-- **The depth is checked wherever an expression starts.**  Below the limit the parser is inside of
one expression more, reads an operand and what extends it, by this same reader for the expressions
inside of it, and is inside of one less after it, whether it read anything or not.  At the limit
that is an error, and nothing is read. -/
theorem run_expression (bp : Power) (p : Parser σ) :
    (expression bp).run p =
      match p.enterExpr? with
      | (true, q) =>
        (((exprUnder expression bp).run q).1, ((exprUnder expression bp).run q).2.exitExpr)
      | (false, q) => (none, q) := by
  by_cases hp : p.exprDepth < nestingLimit
  · obtain ⟨room, hroom⟩ : ∃ room, nestingLimit - p.exprDepth = room + 1 :=
      ⟨nestingLimit - p.exprDepth - 1, by omega⟩
    have hsame := sameAt_exprUnder (σ := σ) (sameAt_exprAt room (by omega)) bp
    have hdepth : p.enterExpr.exprDepth = nestingLimit - room := by
      show p.exprDepth + 1 = nestingLimit - room
      omega
    simp only [expression, hroom, exprAt, inExpr, Parser.enterExpr?, if_pos hp,
      hsame.run_eq p.enterExpr hdepth]
  · have hroom : nestingLimit - p.exprDepth = 0 := by omega
    simp only [expression, hroom, exprAt, reject, Parser.enterExpr?, if_neg hp]

end Parsing
end MonkeySyntax
