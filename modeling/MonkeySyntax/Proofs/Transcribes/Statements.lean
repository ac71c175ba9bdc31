/-
# Statements and blocks stand where they were read

A statement that was read stands before those that follow it, with the `;` after it if there is one.
One that was dropped is junk, and there is an error for it.
-/

import MonkeySyntax.Proofs.Transcribes

namespace MonkeySyntax
namespace Parsing

open MonkeySyntax.Action MonkeySyntax.Spelling

variable {σ : Type} [TokenSource σ] {room : Nat} {expr : Power → Phrase σ Expr}
  (h : Transcribes room expr)

include h

omit h in
/-- A `;` after a statement is what may follow it. -/
theorem ending_skipSemicolon (p : Parser σ) :
    ∃ ts, Ending True ts ∧ p.window.advance.Reads ts (p.skipSemicolon false).window.advance ∧
      (p.skipSemicolon false).errors = p.errors := by
  simp only [Parser.skipSemicolon, Bool.false_and, Bool.false_eq_true, if_false]
  split
  · rename_i hs
    exact ⟨[p.peek], .semicolon hs, .one _, rfl⟩
  · exact ⟨[], .none trivial, .nil _, rfl⟩

omit h in
/-- A statement and what follows it, before further statements. -/
theorem stands_cons {s : Stmt} {ss : List Stmt} {k : Prop} {w u v x : Window σ} {ts : List Token}
    (hs : (Form.stmt s).Stands room k w u) (he : Ending True ts) (hr : u.Reads ts v)
    (hb : (Form.body ss).Stands room k v x) : (Form.body (s :: ss)).Stands room k w x := by
  obtain ⟨us, d, hu, hd, hs⟩ := hs
  obtain ⟨vs, d', hv, hd', hb⟩ := hb
  exact ⟨us ++ (ts ++ vs), max d d', hu.append (hr.append hv), by omega, .stmts hs he hb⟩

/-- An expression stands before what ends its statement, be it a `;` or nothing. -/
theorem thenSemicolon_stands (p : Parser σ) (hg : p.grammar = .standard) :
    (thenSemicolon (expr .lowest).toAction).Ends p
      (fun e q => ∃ ts u, Ending True ts ∧ u.Reads ts q.window.advance ∧
        (Form.expr 0 e).Stands room (q.errors ≠ []) p.window u)
      fun _ => True := by
  rw [ends_thenSemicolon]
  refine (h.lowest p hg).imp ?_
  rintro e q ⟨-, he⟩
  obtain ⟨ts, hts, hr, hq⟩ := ending_skipSemicolon q
  exact ⟨ts, _, hts, hr, by rwa [hq]⟩

/-- A statement stands before whatever statements follow it. -/
theorem anyStatement_stands (p : Parser σ) (hg : p.grammar = .standard) :
    (anyStatement expr).Ends p
      (fun s q => ∃ ts u, Ending True ts ∧ u.Reads ts q.window.advance ∧
        (Form.stmt s).Stands room (q.errors ≠ []) p.window u)
      fun _ => True := by
  simp only [anyStatement, ends_bind, ends_current]
  split
  · rename_i ht
    simp only [letStatement, currentName, ends_bind, ends_current, ends_expect, ends_advance,
      ends_pure, imp_true_iff, and_true]
    intro hi ha
    refine (thenSemicolon_stands h p.advance.advance.advance hg).imp ?_
    rintro e q ⟨ts, u, hts, hu, us, d, hr, hd, hs⟩
    exact ⟨ts, u, hts, hu, _, d, .cons (.cons (.cons hr)), hd, .letBinding ht hi ha hs⟩
  · rename_i ht
    have hbare : (Form.stmt (.returnValue p.current none)).Stands room (p.errors ≠ []) p.window
        p.window.advance := ⟨_, 0, .one _, Nat.zero_le _, .bareReturn ht⟩
    simp only [returnStatement, ends_bind, ends_current, ends_peekIs]
    split
    · rename_i hs
      simp only [ends_bind, ends_advance, ends_pure]
      exact ⟨[p.peek], _, .semicolon (of_decide_eq_true hs), .one _, hbare⟩
    · simp only [ends_bind, ends_peekIs]
      split
      · exact ⟨[], _, .none trivial, .nil _, hbare⟩
      · simp only [ends_bind, ends_peekIs]
        split
        · exact ⟨[], _, .none trivial, .nil _, hbare⟩
        · simp only [ends_bind, ends_advance, ends_pure]
          refine (thenSemicolon_stands h p.advance hg).imp ?_
          rintro e q ⟨ts, u, hts, hu, us, d, hr, hd, hs⟩
          exact ⟨ts, u, hts, hu, _, d, .cons hr, hd, .returnValue ht hs⟩
  · simp only [expressionStatement, ends_bind, ends_current, ends_pure]
    refine (thenSemicolon_stands h p hg).imp ?_
    rintro e q ⟨ts, u, hts, hu, us, d, hr, hd, hs⟩
    obtain ⟨t, us, rule, rfl, -⟩ := hs.exists_head
    obtain rfl := (Window.reads_cons_iff.1 hr).1
    exact ⟨ts, u, hts, hu, _, d, hr, hd, .expression hs⟩

/-- **A statement stands before those that follow it, and one that was dropped is junk.** -/
theorem statement_stands (p : Parser σ) (hg : p.grammar = .standard) :
    (statement expr).Ends p
      (fun s q => p.Leads q ∧ ∀ ss k v, (q.errors ≠ [] → k) →
        (Form.body ss).Stands room k q.window.advance v →
          (Form.body (s :: ss)).Stands room k p.window v)
      (fun q => p.Leads q ∧ q.errors ≠ []) := by
  have hstands : (statement expr).Ends p
      (fun s q => ∃ ts u, Ending True ts ∧ u.Reads ts q.window.advance ∧
        (Form.stmt s).Stands room (q.errors ≠ []) p.window u)
      fun _ => True := by
    rw [statement, ends_noted]
    exact anyStatement_stands h (p.note (.began p.current)) hg
  refine ((statement_leads h.frame p).and hstands).mono ?_ fun _ hq => hq.1
  rintro s q ⟨hl, ts, u, hts, hu, hs⟩
  exact ⟨hl, fun ss k v hk hb => stands_cons (hs.mono hk) hts hu hb⟩

/-- The statements of a block, with one that was dropped as junk. -/
theorem blockItem_stands (p : Parser σ) (hg : p.grammar = .standard) :
    (blockItem expr).Ends p
      (fun x q => p.Leads q ∧ ∀ xs k v, (q.errors ≠ [] → k) →
        (Form.body (xs.filterMap id)).Stands room k q.window v →
          (Form.body ((x :: xs).filterMap id)).Stands room k p.window v)
      fun _ => True := by
  simp only [blockItem, ends_bind, ends_currentIs]
  split
  · exact trivial
  · simp only [ends_bind, ends_attempt, afterStatement, ends_currentIs, ends_pure]
    refine (statement_stands h p hg).mono ?_ ?_
    · rintro s q ⟨hl, hs⟩
      simp only [Option.isSome_some, Bool.or_true, if_true, ends_advance]
      exact ⟨hl.trans (.advance q), fun xs k v hk hb => hs _ k v hk hb⟩
    · rintro q ⟨hl, hne⟩
      have hjunk : ∀ r : Parser σ, p.Leads r → ∀ xs k v, (r.errors ≠ [] → k) →
          r.errors ≠ [] → (Form.body (xs.filterMap id)).Stands room k r.window v →
          (Form.body ((none :: xs).filterMap id)).Stands room k p.window v := by
        rintro r hr xs k v hk hne ⟨us, d, hu, hd, hs⟩
        obtain ⟨ts, ht⟩ := Window.Reads.of_onward hr.window
        exact ⟨ts ++ us, d, ht.append hu, hd, .junk (hk hne) hs⟩
      split
      · simp only [ends_advance]
        have hr := hl.trans (.advance q)
        exact ⟨hr, fun xs k v hk hb => hjunk _ hr xs k v hk hne hb⟩
      · simp only [ends_pure]
        exact ⟨hl, fun xs k v hk hb => hjunk _ hl xs k v hk hne hb⟩

/-- The statements of a block stand up to its closing bracket. -/
theorem body_stands (p : Parser σ) (hg : p.grammar = .standard) :
    (many inBody (blockItem expr) (blockItem_shrinks expr)).Ends p
      (fun xs q => p.Leads q ∧ q.current.kind = .mark .closeCurly ∧
        (Form.body (xs.filterMap id)).Stands room (q.errors ≠ []) p.window q.window)
      fun _ => True := by
  refine ends_many (P := fun q => q.grammar = .standard)
    (R := fun q xs r => q.Leads r ∧ r.current.kind = .mark .closeCurly ∧
      (Form.body (xs.filterMap id)).Stands room (r.errors ≠ []) q.window r.window)
    (B := fun _ _ => True) ?_ ?_ p hg
  · intro q _ hq
    exact ⟨.refl q, by simpa [inBody] using hq, [], 0, .nil _, Nat.zero_le _, .noStmts⟩
  · intro q hq _
    refine (blockItem_stands h q hq).imp ?_
    rintro x r ⟨hl, hs⟩
    exact ⟨hl.grammar.trans hq, fun xs s _ hr => ⟨hl.trans hr.1, hr.2.1,
      hs xs _ _ hr.1.errors_ne_nil hr.2.2⟩, fun _ hs => hs⟩

/-- **A block stands from bracket to bracket,** with the statements that were dropped as junk. -/
theorem block_stands (p : Parser σ) (hg : p.grammar = .standard)
    (hp : p.current.kind = .mark .openCurly) :
    (block expr).Ends p
      (fun b q => p.Leads q ∧
        (Form.block b).Stands room (q.errors ≠ []) p.window q.window.advance)
      fun _ => True := by
  have hblock : (block expr).Ends p
      (fun b q => (Form.block b).Stands room (q.errors ≠ []) p.window q.window.advance)
      fun _ => True := by
    simp only [block, blockAction, ends_bind, ends_current, ends_advance, ends_inBlock, ends_pure]
    refine (body_stands h p.advance.enterBlock hg).imp ?_
    rintro xs q ⟨-, hc, ts, d, ht, hd, hs⟩
    exact ⟨_, d, .cons (ht.append (.one _)), hd, .block hp hc hs⟩
  exact ((Law.follows_block h.frame p).and hblock).mono (fun _ _ hq => hq) fun _ _ => trivial

end Parsing
end MonkeySyntax
