/-
# Statements, blocks and lists keep a discipline

| from `Before n b` | with a result | without one |
| --- | --- | --- |
| a statement, a block | `After n b` | `Failed n b` |
| a list, from the token before it | `After n b` | `Failed n b` |
| what stands between `{` and `}` | the same with `n + 1` | `Failed n b` |

A statement that fails within a block leaves the block's `}` alone.  Outside of all blocks it does
not, so there the discipline has to be `Loose`.
-/

import MonkeySyntax.Proofs.Discipline

namespace MonkeySyntax
namespace Discipline

open MonkeySyntax.Action MonkeySyntax.Parsing

variable {σ : Type} [TokenSource σ] {D : Discipline σ} {n b : Nat} {p : Parser σ}

section

variable {expr : Power → Phrase σ Expr} (h : D.Keeps expr)

include h

/-! ### Statements and blocks -/

/-- An expression is read with the `;` after it, outside of blocks only if more may be skipped after
a failure. -/
theorem keeps_thenSemicolon (hb : D.Loose n ∨ 0 < b) (bp : Power) (hp : D.Before n b p) :
    (thenSemicolon (expr bp).toAction).Ends p (fun _ => D.After n b) (D.Failed n b) := by
  rw [ends_thenSemicolon]
  exact (h n b bp p hp).mono (fun _ _ hq => hq.skipSemicolon) fun _ hq => hq.skipSemicolon hb

/-- A binding is read from `let` to the end of its value. -/
theorem keeps_letStatement (hb : D.Loose n ∨ 0 < b) (hp : D.Before n b p)
    (hk : p.current.kind = .keyword .letWord) :
    (letStatement expr).Ends p (fun _ => D.After n b) (D.Failed n b) := by
  have hlet : D.After n b p := hp.pass (hk ▸ by decide)
  simp only [letStatement, currentName, ends_bind, ends_current, ends_advance, ends_pure]
  refine hlet.expectPlain (by decide) fun hname => ?_
  refine hname.expectPlain (by decide) fun hassign => ?_
  exact keeps_thenSemicolon h hb _ hassign.advance

/-- A `return` is read up to its value, or stands alone before `;`, `}` or the end. -/
theorem keeps_returnStatement (hb : D.Loose n ∨ 0 < b) (hp : D.Before n b p)
    (hk : p.current.kind = .keyword .returnWord) :
    (returnStatement expr).Ends p (fun _ => D.After n b) (D.Failed n b) := by
  have hreturn : D.After n b p := hp.pass (hk ▸ by decide)
  simp only [returnStatement, ends_bind, ends_current, ends_peekIs]
  split
  · rename_i hs
    simp only [ends_bind, ends_advance, ends_pure]
    exact hreturn.onto (of_decide_eq_true hs) (by decide)
  · simp only [ends_bind, ends_peekIs]
    split
    · exact hreturn
    · simp only [ends_bind, ends_peekIs]
      split
      · exact hreturn
      · simp only [ends_bind, ends_advance, ends_pure]
        exact keeps_thenSemicolon h hb _ hreturn.advance

/-- A statement is read from its first token to its last, whichever form it is. -/
theorem keeps_anyStatement (hb : D.Loose n ∨ 0 < b) (hp : D.Before n b p) :
    (anyStatement expr).Ends p (fun _ => D.After n b) (D.Failed n b) := by
  simp only [anyStatement, ends_bind, ends_current]
  split
  · rename_i hk
    exact keeps_letStatement h hb hp hk
  · rename_i hk
    exact keeps_returnStatement h hb hp hk
  · simp only [expressionStatement, ends_bind, ends_current, ends_pure]
    exact keeps_thenSemicolon h hb _ hp

/-- **A statement keeps a discipline,** and if it failed in a block so does recovery from it. -/
theorem keeps_statement (hb : D.Loose n ∨ 0 < b) (hp : D.Before n b p) :
    (statement expr).Ends p (fun _ => D.After n b) (D.Failed n b) := by
  have hany : (anyStatement expr).Ends (p.note (.began p.current)) (fun _ => D.After n b)
      (D.Failed n b) := keeps_anyStatement h hb (hp.note _)
  rw [statement, ends_noted]
  exact hany.mono (fun _ _ hq => hq.note _) fun _ hq => hq.note _

omit h in
/-- A block goes on with its next statement, or it ends where the last one failed. -/
def Resumes (D : Discipline σ) (n b : Nat) (p : Parser σ) : Prop :=
  D.Before n b p ∨ D.Failed n b p ∧ p.current.kind = .mark .closeCurly

/-- A statement of a block leads to the next one, read or not, unless the input ends. -/
theorem keeps_blockItem (hcut : D.CutsOff n) (hp : D.Before n (b + 1) p) :
    (blockItem expr).Ends p (fun _ => D.Resumes n (b + 1)) (D.Failed n (b + 1)) := by
  simp only [blockItem, ends_bind, ends_currentIs]
  split
  · rename_i he
    exact (ends_reject ..).2 ⟨hp.grammar, hp.depth, hcut _ _ hp.holds (of_decide_eq_true he)⟩
  · simp only [ends_bind, ends_attempt, afterStatement, ends_currentIs, ends_pure]
    refine (keeps_statement h (.inr (Nat.succ_pos b)) hp).mono ?_ ?_
    · intro s q hq
      simp only [Option.isSome_some, Bool.or_true, if_true, ends_advance]
      exact .inl hq.advance
    · intro q hq
      split
      · rename_i hopen
        simp only [ends_advance]
        exact .inl (hq.resume (by simpa using hopen))
      · rename_i hclose
        exact .inr ⟨hq, by simpa using hclose⟩

/-- The statements of a block keep a discipline up to a closing bracket. -/
theorem keeps_body (hcut : D.CutsOff n) (hp : D.Before n (b + 1) p) :
    (many inBody (blockItem expr) (blockItem_shrinks expr)).Ends p
      (fun _ q => D.Resumes n (b + 1) q ∧ q.current.kind = .mark .closeCurly)
      (D.Failed n (b + 1)) := by
  refine ends_many (P := D.Resumes n (b + 1))
    (R := fun _ _ r => D.Resumes n (b + 1) r ∧ r.current.kind = .mark .closeCurly)
    (B := fun _ => D.Failed n (b + 1)) ?_ ?_ p (.inl hp)
  · intro q hq hgo
    exact ⟨hq, by simpa [inBody] using hgo⟩
  · rintro q (hq | ⟨-, hclose⟩) hgo
    · exact (keeps_blockItem h hcut hq).mono
        (fun _ _ hr => ⟨hr, fun _ _ _ hs => hs, fun _ hs => hs⟩) fun _ hr => hr
    · simp [inBody, hclose] at hgo

/-- **A block keeps a discipline.** -/
theorem keeps_block (hp : D.Before n b p) (hk : p.current.kind = .mark .openCurly) :
    (block expr).Ends p (fun _ => D.After n b) (D.Failed n b) := by
  have hopen : D.Before (n + 1) (b + 1) p.advance.enterBlock :=
    (hp.open hk).of_eq rfl rfl rfl (congrArg (· + 1) hp.depth)
  simp only [block, blockAction, ends_bind, ends_current, ends_advance, ends_inBlock, ends_pure]
  refine (keeps_body h (fun _ _ => D.cutOff) hopen).mono ?_ fun q hq => ?_
  · rintro _ q ⟨hq | ⟨hq, -⟩, hclose⟩
    · have hafter := hq.close hclose
      exact hafter.of_eq rfl rfl rfl (congrArg (· - 1) hafter.depth)
    · have hafter := hq.close hclose
      exact hafter.of_eq rfl rfl rfl (congrArg (· - 1) hafter.depth)
  · have hfailed := hq.giveUp
    exact hfailed.of_eq rfl rfl rfl (congrArg (· - 1) hfailed.depth)

/-! ### Lists -/

/-- A list of expressions is read up to its closing mark, which is no curly bracket. -/
theorem keeps_expressions (close : Mark) (hclose : (Kind.mark close).NoCurly)
    (hp : D.After n b p) :
    (expressions expr close).Ends p (fun _ => D.After n b) (D.Failed n b) := by
  simp only [expressions, ends_bind, ends_peekIs]
  split
  · simp only [ends_bind, ends_pure]
    exact hp.expectPlain hclose fun hq => hq
  · simp only [ends_bind, ends_advance, ends_pure]
    refine (h n b .lowest _ hp.advance).imp fun _ q hq => ?_
    refine (ends_many (P := D.After n b) (R := fun _ _ => D.After n b)
      (B := fun _ => D.Failed n b) (fun _ hr _ => hr) ?_ q hq).imp
      fun _ r hr => hr.expectPlain hclose fun hs => hs
    intro r hr hgo
    have hcomma : D.After n b r.advance := hr.onto (of_decide_eq_true hgo) (by decide)
    simp only [nextExpression, ends_bind, ends_advance]
    exact (h n b .lowest _ hcomma.advance).mono
      (fun _ _ hs => ⟨hs, fun _ _ _ ht => ht, fun _ ht => ht⟩) fun _ hs => hs

omit h in
/-- Parameters are read between their brackets. -/
theorem keeps_parameters (hp : D.After n b p) :
    (parameters : Action σ (List Identifier)).Ends p (fun _ => D.After n b) (D.Failed n b) := by
  simp only [parameters, currentName, ends_bind, ends_peekIs]
  refine hp.expectPlain (by decide) fun hopen => ?_
  split
  · rename_i hk
    simp only [ends_bind, ends_advance, ends_pure]
    exact hopen.onto (of_decide_eq_true hk) (by decide)
  · simp only [ends_bind, ends_current, ends_pure]
    refine hopen.expectPlain (by decide) fun hname => ?_
    refine (ends_many (P := D.After n b) (R := fun _ _ => D.After n b)
      (B := fun _ => D.Failed n b) (fun _ hr _ => hr) ?_ _ hname).imp
      fun _ r hr => hr.expectPlain (by decide) fun hs => hs
    intro r hr hgo
    have hcomma : D.After n b r.advance := hr.onto (of_decide_eq_true hgo) (by decide)
    simp only [nextParameter, currentName, ends_bind, ends_advance, ends_current, ends_pure]
    exact hcomma.expectPlain (by decide) fun hs => ⟨hs, fun _ _ _ ht => ht, fun _ ht => ht⟩

/-- A pair is read from the token before it, inside of the brackets of the hash. -/
theorem keeps_pair (hnext : D.Before n b p.advance) :
    (pair expr).Ends p (fun _ => D.After n b) (D.Failed n b) := by
  simp only [pair, key, ends_bind, ends_advance, ends_pure, ends_peekIs]
  refine (h _ _ .lowest _ hnext).imp fun _ q hq => ?_
  refine hq.expectPlain (by decide) fun hcolon => ?_
  refine (h _ _ .lowest _ hcolon.advance).imp fun _ r hr => ?_
  split
  · exact hr
  · simp only [ends_bind, ends_pure]
    exact hr.expectPlain (by decide) fun hs => hs

/-- The pairs of a hash are read from its `{` to its `}`. -/
theorem keeps_pairs (hp : D.Before n b p) (hk : p.current.kind = .mark .openCurly) :
    (pairs expr).Ends p (fun _ => D.After n b) (D.Failed n b) := by
  simp only [pairs, ends_bind, ends_pure]
  refine (ends_many (P := fun q => D.Before (n + 1) b q.advance)
    (R := fun _ _ r => D.Before (n + 1) b r.advance ∧ r.peek.kind = .mark .closeCurly)
    (B := fun _ => D.Failed n b) ?_ ?_ p (hp.open hk)).imp ?_
  · intro q hq hgo
    exact ⟨hq, by simpa [inHash] using hgo⟩
  · intro q hq _
    refine (keeps_pair h hq).mono (fun _ r hr => ?_) fun _ hr => hr.giveUp
    exact ⟨hr.advance, fun _ _ _ hs => hs, fun _ hs => hs⟩
  · intro _ q hq
    -- the rounds stop at nothing but a closing bracket, so it is there
    rw [ends_expect]
    exact ⟨fun hclose => hq.1.close hclose, fun hclose => absurd hq.2 hclose⟩

end

end Discipline
end MonkeySyntax
