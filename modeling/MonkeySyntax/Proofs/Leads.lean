/-
# What every action leaves as it was

However an action ends, the parser after it is further on in the same input, reads by the same
grammar, is inside of as many expressions and blocks as before, and still has every error it had
(`Parser.Leads`); if it failed there is an error.  That is a law (`Law.frame`), so whatever is read
by the grammar keeps it.
-/

import MonkeySyntax.Proofs.Law

namespace MonkeySyntax

variable {σ : Type} [TokenSource σ]

/-- `q` comes after `p` without a change of grammar or depth and without the loss of an error. -/
structure Parser.Leads (p q : Parser σ) : Prop where
  window : p.window.Onward q.window
  grammar : q.grammar = p.grammar
  exprDepth : q.exprDepth = p.exprDepth
  blockDepth : q.blockDepth = p.blockDepth
  errors : p.errors <+: q.errors

namespace Parser.Leads

variable {p q r : Parser σ}

/-- To do nothing leads on. -/
theorem refl (p : Parser σ) : p.Leads p := ⟨.refl _, rfl, rfl, rfl, List.prefix_rfl⟩

/-- To lead on and on again is to lead on. -/
theorem trans (h : p.Leads q) (k : q.Leads r) : p.Leads r where
  window := h.window.trans k.window
  grammar := k.grammar.trans h.grammar
  exprDepth := k.exprDepth.trans h.exprDepth
  blockDepth := k.blockDepth.trans h.blockDepth
  errors := h.errors.trans k.errors

/-- Entries in the journal do not count. -/
theorem noted {d e : Event} (h : (p.note d).Leads q) : p.Leads (q.note e) :=
  ⟨h.window, h.grammar, h.exprDepth, h.blockDepth, h.errors⟩

/-- One more error leads on. -/
theorem report (p : Parser σ) (d : Diagnostic) : p.Leads (p.report d) :=
  ⟨.refl _, rfl, rfl, rfl, List.prefix_append _ _⟩

/-- Errors do not go away. -/
theorem errors_ne_nil (h : p.Leads q) (hp : p.errors ≠ []) : q.errors ≠ [] := fun hq => by
  have he := h.errors
  rw [hq, List.prefix_nil] at he
  exact hp he

/-- Into an expression and out of it, the depth is what it was. -/
theorem inExpr (h : p.enterExpr.Leads q) : p.Leads q.exitExpr where
  window := h.window
  grammar := h.grammar
  exprDepth := by
    have hd := h.exprDepth
    simp only [enterExpr, atDepths, exitExpr] at hd ⊢
    omega
  blockDepth := h.blockDepth
  errors := h.errors

/-- Out of the same number of expressions on both sides. -/
theorem exitExpr (h : p.Leads q) : p.exitExpr.Leads q.exitExpr where
  window := h.window
  grammar := h.grammar
  exprDepth := congrArg (· - 1) h.exprDepth
  blockDepth := h.blockDepth
  errors := h.errors

/-- Into a block and out of it, the depth is what it was. -/
theorem inBlock (h : p.enterBlock.Leads q) : p.Leads q.exitBlock where
  window := h.window
  grammar := h.grammar
  exprDepth := h.exprDepth
  blockDepth := by
    have hd := h.blockDepth
    simp only [enterBlock, atDepths, exitBlock] at hd ⊢
    omega
  errors := h.errors

/-- A step leads on. -/
theorem advance (p : Parser σ) : p.Leads p.advance :=
  ⟨.advance _, rfl, rfl, rfl, List.prefix_rfl⟩

end Parser.Leads

open MonkeySyntax.Parser

/-- The law that grammar and depths are left as they were and errors are only added to. -/
def Law.frame : Law σ where
  kept := Leads
  lost p q := p.Leads q ∧ q.errors ≠ []
  refl := .refl
  trans h k := h.trans k
  trans_lost h k := ⟨h.trans k.1, k.2⟩
  kept_advance := .advance
  lost_report p d := ⟨.report p d, by simp [report]⟩
  lost_advance h := ⟨h.1.trans (.advance _), h.2⟩
  kept_inExpr h := h.inExpr
  lost_inExpr h := ⟨h.1.inExpr, h.2⟩
  kept_inBlock h := h.inBlock
  lost_inBlock h := ⟨h.1.inBlock, h.2⟩
  kept_noted h := h.noted
  kept_dropped h := h.1.noted

/-- Result or not, what follows the law leads on. -/
theorem Law.Follows.leads {α : Type} {a : Action σ α} (h : Law.frame.Follows a) (p : Parser σ) :
    p.Leads (a.run p).2 := by
  have hends := Action.ends_iff.1 (h p)
  rcases hr : a.run p with ⟨_ | x, q⟩
  · exact (hends.2 q hr).1
  · exact hends.1 x q hr

/-- A statement leads on, and to an error if it was dropped. -/
theorem Parsing.statement_leads {expr : Power → Phrase σ Expr}
    (h : ∀ bp, Law.frame.Follows (expr bp).toAction) (p : Parser σ) :
    (statement expr).Ends p (fun _ q => p.Leads q) fun q => p.Leads q ∧ q.errors ≠ [] :=
  (Action.ends_noted ..).2 <| (Law.follows_anyStatement h _).mono (fun _ _ hq => hq.noted)
    fun _ hq => ⟨hq.1.noted, hq.2⟩

end MonkeySyntax
