/-
# Where an action ends

`a.Ends p ok bad` says how `a` ends when it is run from the parser `p`: with a result, of which
`ok` holds together with the parser after it, or without one, at a parser of which `bad` holds.

The equations `ends_…` take such a statement apart along the action, down to the expressions that
it reads, so that a rule of the grammar is run by rewriting.  The loops `many`, `extend` and
`Parser.statements` have a rule each: what holds at the end of a loop follows from what one round
does (`ends_many`, `ends_extend`, `Parser.statements_ind`).
-/

import MonkeySyntax.Parsing.Program

namespace MonkeySyntax
namespace Action

variable {σ : Type} [TokenSource σ] {α β : Type}

/-- With a result, `ok` holds of it and of the parser after it; without one, `bad` does. -/
def Ends (a : Action σ α) (p : Parser σ) (ok : α → Parser σ → Prop) (bad : Parser σ → Prop) :
    Prop :=
  match a.run p with
  | (some x, q) => ok x q
  | (none, q) => bad q

section

variable {p : Parser σ} {ok ok' : α → Parser σ → Prop} {bad bad' : Parser σ → Prop}

/-- To say how an action ends is to say it for both of its ends. -/
theorem ends_iff {a : Action σ α} :
    a.Ends p ok bad ↔
      (∀ x q, a.run p = (some x, q) → ok x q) ∧ ∀ q, a.run p = (none, q) → bad q := by
  rcases h : a.run p with ⟨_ | x, q⟩ <;> simp [Ends, h]

/-- What is known of a result, where there is one. -/
theorem Ends.of_some {a : Action σ α} {x : α} {q : Parser σ} (h : a.Ends p ok bad)
    (hr : a.run p = (some x, q)) : ok x q := (ends_iff.1 h).1 x q hr

/-- What is known of a failure, where there is one. -/
theorem Ends.of_none {a : Action σ α} {q : Parser σ} (h : a.Ends p ok bad)
    (hr : a.run p = (none, q)) : bad q := (ends_iff.1 h).2 q hr

/-- What an action ends with may be weakened. -/
theorem Ends.mono {a : Action σ α} (h : a.Ends p ok bad) (hok : ∀ x q, ok x q → ok' x q)
    (hbad : ∀ q, bad q → bad' q) : a.Ends p ok' bad' := by
  unfold Ends at h ⊢
  split at h
  · exact hok _ _ h
  · exact hbad _ h

/-- What is known of a result may be weakened. -/
theorem Ends.imp {a : Action σ α} (h : a.Ends p ok bad) (hok : ∀ x q, ok x q → ok' x q) :
    a.Ends p ok' bad := h.mono hok fun _ hq => hq

/-- Two statements about how one action ends are one. -/
theorem Ends.and {a : Action σ α} (h : a.Ends p ok bad) (k : a.Ends p ok' bad') :
    a.Ends p (fun x q => ok x q ∧ ok' x q) (fun q => bad q ∧ bad' q) := by
  unfold Ends at h k ⊢
  split at h <;> exact ⟨h, by simp_all⟩

end

/-! ### Running an action by its parts -/

section

variable (p : Parser σ) (ok : α → Parser σ → Prop) (bad : Parser σ → Prop)

@[simp] theorem ends_pure (x : α) : (pure x : Action σ α).Ends p ok bad ↔ ok x p := Iff.rfl

/-- A sequence ends as its second part does, from where the first one ended with a result. -/
@[simp] theorem ends_bind (a : Action σ β) (f : β → Action σ α) :
    (a >>= f).Ends p ok bad ↔ a.Ends p (fun x q => (f x).Ends q ok bad) bad := by
  rcases h : a.run p with ⟨_ | x, q⟩ <;> simp [Ends, run_bind, h]

@[simp] theorem ends_current (ok : Token → Parser σ → Prop) :
    current.Ends p ok bad ↔ ok p.current p := Iff.rfl

@[simp] theorem ends_currentIs (k : Kind) (ok : Bool → Parser σ → Prop) :
    (currentIs k).Ends p ok bad ↔ ok (p.current.kind = k) p := Iff.rfl

@[simp] theorem ends_peekIs (k : Kind) (ok : Bool → Parser σ → Prop) :
    (peekIs k).Ends p ok bad ↔ ok (p.peek.kind = k) p := Iff.rfl

@[simp] theorem ends_advance (ok : Unit → Parser σ → Prop) :
    advance.Ends p ok bad ↔ ok () p.advance := Iff.rfl

@[simp] theorem ends_reject (d : Parser σ → Diagnostic) :
    (reject d : Action σ α).Ends p ok bad ↔ bad (p.report (d p)) := Iff.rfl

/-- An expected token is passed if it is there, and reported if not. -/
@[simp] theorem ends_expect (k : Kind) (ok : Unit → Parser σ → Prop) :
    (expect k).Ends p ok bad ↔
      (p.peek.kind = k → ok () p.advance) ∧
        (p.peek.kind ≠ k → bad (p.report (p.unexpectedPeek k))) := by
  unfold Ends expect
  by_cases h : p.peek.kind = k <;> simp [h]

/-- An attempt always has a result, which is none where the action failed. -/
@[simp] theorem ends_attempt (a : Action σ β) (ok : Option β → Parser σ → Prop) :
    (attempt a).Ends p ok bad ↔ a.Ends p (fun x q => ok (some x) q) (fun q => ok none q) := by
  rcases h : a.run p with ⟨_ | x, q⟩ <;> simp [Ends, attempt, h]

/-- Either way, a `;` may be skipped after an action. -/
@[simp] theorem ends_thenSemicolon (a : Action σ α) :
    (thenSemicolon a).Ends p ok bad ↔
      a.Ends p (fun x q => ok x (q.skipSemicolon false)) (fun q => bad (q.skipSemicolon true)) := by
  rcases h : a.run p with ⟨_ | x, q⟩ <;> simp [Ends, thenSemicolon, h]

/-- Either way, an action inside of an expression comes out of it again. -/
@[simp] theorem ends_inExpr (a : Action σ α) :
    (inExpr a).Ends p ok bad ↔
      a.Ends p.enterExpr (fun x q => ok x q.exitExpr) (fun q => bad q.exitExpr) := by
  rcases h : a.run p.enterExpr with ⟨_ | x, q⟩ <;> simp [Ends, inExpr, h]

/-- Either way, an action inside of a block comes out of it again. -/
@[simp] theorem ends_inBlock (a : Action σ α) :
    (inBlock a).Ends p ok bad ↔
      a.Ends p.enterBlock (fun x q => ok x q.exitBlock) (fun q => bad q.exitBlock) := by
  rcases h : a.run p.enterBlock with ⟨_ | x, q⟩ <;> simp [Ends, inBlock, h]

/-- A statement is noted as read or as dropped, by how it ended. -/
@[simp] theorem ends_noted (a : Action σ α) :
    (noted a).Ends p ok bad ↔
      a.Ends (p.note (.began p.current)) (fun x q => ok x (q.note .kept))
        (fun q => bad (q.note .dropped)) := by
  rcases h : a.run (p.note (.began p.current)) with ⟨_ | x, q⟩ <;> simp [Ends, noted, h]

end

/-! ### The loops -/

/-- **How a repetition ends.**  `P` holds before each round, and `R p xs r` says that the rounds
from `p` on gave `xs` and ended at `r`.  A round after which the loop is over is the last. -/
theorem ends_many {go : Parser σ → Bool} {item : Action σ α} {shrinks : Shrinks go item}
    {P : Parser σ → Prop} {R : Parser σ → List α → Parser σ → Prop}
    {B : Parser σ → Parser σ → Prop}
    (stop : ∀ p, P p → go p = false → R p [] p)
    (step : ∀ p, P p → go p = true →
      item.Ends p
        (fun x q => P q ∧
          (∀ xs r, (go q = false → xs = [] ∧ r = q) → R q xs r → R p (x :: xs) r) ∧
          ∀ r, B q r → B p r)
        (B p)) :
    ∀ p, P p → (many go item shrinks).Ends p (R p) (B p) := by
  intro p hp
  rw [ends_iff]
  simp only [many]
  fun_induction manyFrom go item shrinks p with
  | case1 p hgo q hr =>
    have hbad := (step p hp hgo).of_none hr
    simp_all
  | case2 p hgo x q hr r hm ih =>
    obtain ⟨hq, -, hbad⟩ := (step p hp hgo).of_some hr
    have hr' := hbad r ((ih hq).2 r hm)
    simp_all
  | case3 p hgo x q hr xs r hm ih =>
    obtain ⟨hq, hok, -⟩ := (step p hp hgo).of_some hr
    have hlast : go q = false → xs = [] ∧ r = q := by
      intro hstop
      rw [manyFrom, dif_neg (by simp [hstop])] at hm
      cases hm
      exact ⟨rfl, rfl⟩
    have hr' := hok xs r hlast ((ih hq).1 xs r hm)
    simp_all
  | case4 p hgo =>
    have hr' := stop p hp (by simpa using hgo)
    simp_all

open MonkeySyntax.Parsing

/-- **How an extension ends.**  `I` holds of what was read so far and of the parser after it. -/
theorem ends_extend {expr : Power → Phrase σ Expr} {bp : Power} {I : Expr → Parser σ → Prop}
    {B : Parser σ → Prop}
    (step : ∀ left p rule, I left p → nextRule bp p = some rule →
      (applyInfix expr rule left).Ends p.advance I B) :
    ∀ left p, I left p →
      (extend expr bp left).Ends p (fun e q => I e q ∧ nextRule bp q = none) B := by
  intro left p hp
  rw [ends_iff]
  simp only [extend]
  fun_induction extendFrom expr bp left p with
  | case1 left p hn => simp_all
  | case2 left p rule hn q hr =>
    have hbad := (step left p rule hp hn).of_none hr
    simp_all
  | case3 left p rule hn e q hr ih => exact ih ((step left p rule hp hn).of_some hr)

end Action

/-- **How a program ends.**  `R p xs r` says that the statements from `p` on are `xs`, without
those that failed, and that the input ends at `r`. -/
theorem Parser.statements_ind {σ : Type} [TokenSource σ]
    {R : Parser σ → List Stmt → Parser σ → Prop}
    (stop : ∀ p, p.current.kind = .eof → R p [] p)
    (step : ∀ p : Parser σ, p.current.kind ≠ .eof →
      (Parsing.statement Parsing.expression).Ends p
        (fun s q => ∀ xs r, R q.advance xs r → R p (s :: xs) r)
        (fun q => ∀ xs r, R q.advance xs r → R p xs r)) :
    ∀ p : Parser σ, R p p.statements.1 p.statements.2 := by
  intro p
  fun_induction Parser.statements p with
  | case1 p he => exact stop p he
  | case2 p he first rest ih =>
    have hs := step p he
    rcases hr : first with ⟨_ | s, q⟩
    · simpa [rest, hr] using hs.of_none hr _ _ (by simpa [hr] using ih)
    · simpa [rest, hr] using hs.of_some hr _ _ (by simpa [hr] using ih)

end MonkeySyntax
