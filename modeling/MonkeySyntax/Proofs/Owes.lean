/-
# What a parser owes

`w.Owes n es` says that at the window `w` at least `n` brackets are due, and that none of the errors
`es` is about a block that was cut off.

| step | from | to |
| --- | --- | --- |
| past a `{` | `Owes n` | `Owes (n + 1)` |
| past a `}` | `Owes (n + 1)` | `Owes n` |
| past any other token | `Owes n` | `Owes n` |

Where something is due the input does not end, so a parser that is inside of no more brackets than
are due never finds a block cut off.  That is a discipline of parsers (`owing`).
-/

import MonkeySyntax.Proofs.Discipline
import MonkeySyntax.Proofs.Due

namespace MonkeySyntax

namespace Parser

/-- At `p`, inside of `b` blocks, `n` brackets at least are due, and no block was cut off. -/
structure Owes (n b : Nat) (p : Parser Stream) : Prop where
  grammar : p.grammar = .standard
  closes : p.window.Closes
  terminated : ∀ d ∈ p.errors, ∀ k, d.cause ≠ .unexpectedToken (.mark .closeCurly) k
  depth : p.blockDepth = b
  due : n ≤ p.window.due

end Parser

namespace Window

/-- At `w`, `n` brackets at least are due, and no block was cut off. -/
structure Owes (n : Nat) (w : Window Stream) (es : List Diagnostic) : Prop where
  closes : w.Closes
  terminated : ∀ d ∈ es, ∀ k, d.cause ≠ .unexpectedToken (.mark .closeCurly) k
  due : n ≤ w.due

namespace Owes

variable {n : Nat} {w : Window Stream} {es : List Diagnostic}

/-- Less may be due than is. -/
theorem of_succ (h : w.Owes (n + 1) es) : w.Owes n es where
  closes := h.closes
  terminated := h.terminated
  due := by
    have hdue := h.due
    omega

/-- An error about anything but a block that is cut off leaves what is due. -/
theorem report {d : Diagnostic} (h : w.Owes n es)
    (hd : ∀ k, d.cause ≠ .unexpectedToken (.mark .closeCurly) k) : w.Owes n (es ++ [d]) where
  closes := h.closes
  terminated := List.forall_mem_append.2 ⟨h.terminated, by simpa using hd⟩
  due := h.due

/-- Only a `}` lowers what is due. -/
theorem advance (h : w.Owes n es) (hw : w.current.kind ≠ .mark .closeCurly) :
    w.advance.Owes n es where
  closes := h.closes.advance
  terminated := h.terminated
  due := by
    have hdue := h.due
    have hle := due_le_advance hw
    omega

/-- Past a `{` one more bracket is due. -/
theorem enter (h : w.Owes n es) (hw : w.current.kind = .mark .openCurly) :
    w.advance.Owes (n + 1) es where
  closes := h.closes.advance
  terminated := h.terminated
  due := by
    have hdue := h.due
    have hopen := due_advance_of_open hw
    omega

/-- Past a `}` one bracket less is due. -/
theorem leave (h : w.Owes (n + 1) es) (hw : w.current.kind = .mark .closeCurly) :
    w.advance.Owes n es where
  closes := h.closes.advance
  terminated := h.terminated
  due := by
    have hdue := h.due
    have hclose := due_advance_of_close hw
    omega

/-- With nothing due, any token may be moved past. -/
theorem advance_top (h : w.Owes 0 es) : w.advance.Owes 0 es :=
  ⟨h.closes.advance, h.terminated, h.closes.due_nonneg _ (.advance _)⟩

/-- What is not due at the end of the input is not due. -/
theorem ne_eof (h : w.Owes (n + 1) es) : w.current.kind ≠ .eof := fun he => by
  have hdue := h.due
  have heof := h.closes.due_eof w (.refl _) he
  omega

end Owes

end Window

/-- **What is due stays due at every step,** wherever a statement fails. -/
def owing : Discipline Stream where
  before n w := w.Owes n
  after n w es := w.Owes n es ∧ w.advance.Owes n es
  failed n w := w.Owes n
  move h := h.2
  pass h hw := ⟨h, h.advance hw.2⟩
  opened h hw := h.enter hw
  closed h hw := ⟨h.of_succ, h.leave hw⟩
  closed_failed h hw := ⟨h.of_succ, h.leave hw⟩
  fault h hd := h.report fun k hk => by cases hd <;> cases hk
  missing h _ hk := h.1.report fun j hj => hk (Cause.unexpectedToken.inj hj).1
  cutOff h he := absurd he h.ne_eof
  giveUp h := h.of_succ
  skip h hw := h.advance hw
  resume h hw := h.advance hw

namespace Parser

variable {n b : Nat} {p : Parser Stream}

/-- What a parser owes is what the discipline of brackets says before a token. -/
theorem owes_iff : p.Owes n b ↔ owing.Before n b p :=
  ⟨fun h => ⟨h.grammar, h.depth, h.closes, h.terminated, h.due⟩,
    fun h => ⟨h.grammar, h.holds.closes, h.holds.terminated, h.depth, h.holds.due⟩⟩

end Parser
end MonkeySyntax
