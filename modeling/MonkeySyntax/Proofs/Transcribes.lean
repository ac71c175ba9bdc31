/-
# Readers that transcribe

A reader of expressions *transcribes* if whatever it reads at a power is written, at the rank above
that power, by the tokens between the window it began at and the one after it (`Transcribes`).
What is written where is `Form.Stands`: the tokens between two windows spell a piece of syntax.

If `expr` transcribes with some room, then lists of what it reads stand where they were read.  Each
round of a list is read before the rounds that follow it, so what is said of a round is what it adds
to a list that already stands.
-/

import MonkeySyntax.Proofs.Leads
import MonkeySyntax.Proofs.Reads
import MonkeySyntax.Proofs.Spelling

namespace MonkeySyntax

open MonkeySyntax.Action MonkeySyntax.Parsing

variable {σ : Type} [TokenSource σ]

/-- `f` is written between the windows `w` and `v`, with expressions at most `room` deep, and with
junk in it only if `junk` holds. -/
def Form.Stands (f : Form) (room : Nat) (junk : Prop) (w v : Window σ) : Prop :=
  ∃ ts d, w.Reads ts v ∧ d ≤ room ∧ Spells ⟨True, junk⟩ f ts d

/-- What stands without junk stands where junk is allowed. -/
theorem Form.Stands.mono {f : Form} {room : Nat} {j k : Prop} {w v : Window σ}
    (h : f.Stands room j w v) (hjk : j → k) : f.Stands room k w v := by
  obtain ⟨ts, d, hr, hd, hs⟩ := h
  exact ⟨ts, d, hr, hd, Spells.mono (L := ⟨True, j⟩) (fun hb => hb) hjk hs⟩

namespace Parsing

/-- Whatever `expr` reads is written where it was read, at most `room` deep. -/
structure Transcribes (room : Nat) (expr : Power → Phrase σ Expr) : Prop where
  frame : ∀ bp, Law.frame.Follows (expr bp).toAction
  stands : ∀ bp p, p.grammar = .standard →
    (expr bp).Ends p
      (fun e q => (q.grammar.power q.peek.kind).rank ≤ bp.rank ∧
        ∀ n, n ≤ bp.rank + 1 → n ≤ Power.prefixed.rank →
          (Form.expr n e).Stands room (q.errors ≠ []) p.window q.window.advance)
      fun _ => True

section

variable {room : Nat} {expr : Power → Phrase σ Expr} (h : Transcribes room expr)

include h

/-- An expression that is read at the loosest power. -/
theorem Transcribes.lowest (p : Parser σ) (hg : p.grammar = .standard) :
    (expr .lowest).Ends p
      (fun e q => p.Leads q ∧
        (Form.expr 0 e).Stands room (q.errors ≠ []) p.window q.window.advance)
      fun _ => True :=
  ((h.frame _ p).and (h.stands .lowest p hg)).mono
    (fun _ _ hq => ⟨hq.1, hq.2.2 0 (Nat.zero_le _) (Nat.zero_le _)⟩) fun _ _ => trivial

/-! ### Lists -/

/-- A further expression adds itself and its comma to a list that stands after it. -/
theorem nextExpression_stands (p : Parser σ) (hg : p.grammar = .standard)
    (hp : commaFollows p = true) :
    (nextExpression expr).Ends p
      (fun e q => p.Leads q ∧ ∀ es v k, (q.errors ≠ [] → k) →
        (Form.moreExprs es).Stands room k q.window.advance v →
          (Form.moreExprs (e :: es)).Stands room k p.window.advance v)
      fun _ => True := by
  simp only [nextExpression, ends_bind, ends_advance]
  refine (h.lowest p.advance.advance hg).imp ?_
  rintro e q ⟨hl, he⟩
  refine ⟨((Parser.Leads.advance p).trans (.advance _)).trans hl, ?_⟩
  rintro es v k hk ⟨us, d', hu, hd', hs'⟩
  obtain ⟨ts, d, ht, hd, hs⟩ := he.mono hk
  refine ⟨p.peek :: (ts ++ us), max d d', ?_, by omega, .more (of_decide_eq_true hp) hs hs'⟩
  exact .cons (ht.append hu)

/-- **A list of expressions stands where it was read,** before its closing mark. -/
theorem expressions_stand (close : Mark) (p : Parser σ) (hg : p.grammar = .standard) :
    (expressions expr close).Ends p
      (fun es q => q.current.kind = .mark close ∧
        (Form.exprs es).Stands room (q.errors ≠ []) p.window.advance q.window)
      fun _ => True := by
  simp only [expressions, ends_bind, ends_peekIs]
  split
  · simp only [ends_bind, ends_expect, ends_pure, imp_true_iff, and_true]
    exact fun hc => ⟨hc, [], 0, .nil _, Nat.zero_le _, .noExprs⟩
  · simp only [ends_bind, ends_advance, ends_expect, ends_pure, imp_true_iff, and_true]
    refine (h.lowest p.advance hg).imp ?_
    rintro e q ⟨hl, he⟩
    refine (ends_many (P := fun q => q.grammar = .standard)
      (R := fun q es r => q.Leads r ∧
        (Form.moreExprs es).Stands room (r.errors ≠ []) q.window.advance r.window.advance)
      (B := fun _ _ => True)
      (fun q _ _ => ⟨.refl q, [], 0, .nil _, Nat.zero_le _, .noMore⟩) ?_ q
      (hl.grammar.trans hg)).imp ?_
    · intro q hq hgo
      refine (nextExpression_stands h q hq hgo).imp ?_
      rintro e r ⟨hl, hs⟩
      refine ⟨hl.grammar.trans hq, fun es s _ hr => ⟨hl.trans hr.1, ?_⟩, fun _ hs => hs⟩
      exact hs es _ _ hr.1.errors_ne_nil hr.2
    · rintro es r ⟨hlr, us, d', hu, hd', hs'⟩ hc
      obtain ⟨ts, d, ht, hd, hs⟩ := he.mono hlr.errors_ne_nil
      exact ⟨hc, ts ++ us, max d d', ht.append hu, by omega, .exprs hs hs'⟩

/-- A pair adds itself, and the comma after it if there is one, to pairs that stand after it;
without the comma it is the last. -/
theorem pair_stands (p : Parser σ) (hg : p.grammar = .standard) :
    (pair expr).Ends p
      (fun x q => p.Leads q ∧ ∀ ps v k, (q.errors ≠ [] → k) →
        (inHash q = false → ps = [] ∧ v = q.window.advance) →
        (Form.pairs ps).Stands room k q.window.advance v →
          (Form.pairs (x :: ps)).Stands room k p.window.advance v)
      fun _ => True := by
  simp only [pair, key, ends_bind, ends_advance, ends_expect, ends_pure, ends_peekIs, imp_true_iff,
    and_true]
  refine (h.lowest p.advance hg).imp ?_
  rintro k q ⟨hlk, hk⟩ hc
  refine (h.lowest q.advance.advance (hlk.grammar.trans hg)).imp ?_
  rintro v r ⟨hlv, hv⟩
  have hl : p.Leads r :=
    (((Parser.Leads.advance p).trans hlk).trans ((Parser.Leads.advance q).trans (.advance _))).trans
      hlv
  split
  · rename_i hclose
    refine ⟨hl, fun ps w k hk' hlast _ => ?_⟩
    obtain ⟨rfl, rfl⟩ := hlast (by simpa [inHash] using hclose)
    obtain ⟨ts, d, ht, hd, hs⟩ := hk.mono fun hq => hk' (hlv.errors_ne_nil hq)
    obtain ⟨us, d', hu, hd', hs'⟩ := hv.mono hk'
    exact ⟨ts ++ q.peek :: us, max d d', ht.append (.cons hu), by omega, .lastPair hc hs hs'⟩
  · simp only [ends_bind, ends_expect, ends_pure, imp_true_iff, and_true]
    intro hm
    refine ⟨hl.trans (.advance r), fun ps w k hk' _ hps => ?_⟩
    obtain ⟨ts, d, ht, hd, hs⟩ := hk.mono fun hq => hk' (hlv.errors_ne_nil hq)
    obtain ⟨us, d', hu, hd', hs'⟩ := hv.mono hk'
    obtain ⟨vs, d'', hw, hd'', hs''⟩ := hps
    exact ⟨ts ++ q.peek :: (us ++ r.peek :: vs), max d (max d' d''),
      ht.append (.cons (hu.append (.cons hw))), by omega, .pairs hc hm hs hs' hs''⟩

/-- **The pairs of a hash stand where they were read,** before its closing bracket. -/
theorem pairs_stand (p : Parser σ) (hg : p.grammar = .standard) :
    (pairs expr).Ends p
      (fun ps q => q.current.kind = .mark .closeCurly ∧
        (Form.pairs ps).Stands room (q.errors ≠ []) p.window.advance q.window)
      fun _ => True := by
  simp only [pairs, ends_bind, ends_expect, ends_pure, imp_true_iff, and_true]
  refine (ends_many (P := fun q => q.grammar = .standard)
    (R := fun q ps r => q.Leads r ∧
      (Form.pairs ps).Stands room (r.errors ≠ []) q.window.advance r.window.advance)
    (B := fun _ _ => True)
    (fun q _ _ => ⟨.refl q, [], 0, .nil _, Nat.zero_le _, .noPairs⟩) ?_ p hg).imp
    fun ps q hq hc => ⟨hc, hq.2⟩
  intro q hq _
  refine (pair_stands h q hq).imp ?_
  rintro x r ⟨hl, hs⟩
  refine ⟨hl.grammar.trans hq, fun ps s hlast hr => ⟨hl.trans hr.1, ?_⟩, fun _ hs => hs⟩
  refine hs ps _ _ hr.1.errors_ne_nil (fun hstop => ?_) hr.2
  obtain ⟨hps, hsr⟩ := hlast hstop
  exact ⟨hps, by rw [hsr]⟩

end

end Parsing

end MonkeySyntax
