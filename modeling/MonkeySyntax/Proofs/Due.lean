/-
# How many brackets are still to be closed

`{` and `}` open and close blocks and hashes.  A list of tokens balances if it closes no more of
them than it opened at any point, and all of them in the end (`Balances`).

At a window, `due` is how many more `}` than `{` are to come from the current token on.

| the current token | what is due after it |
| --- | --- |
| `{` | one more |
| `}` | one less |
| any other | as much |

In a list that balances it is never negative, and nothing is due at the end of the input
(`Window.closes_start`).
-/

import MonkeySyntax.Proofs.Reads

namespace MonkeySyntax

/-- How many tokens of a list open a block or a hash. -/
def openers (ts : List Token) : Nat := ts.countP (·.kind = .mark .openCurly)

/-- How many tokens of a list close a block or a hash. -/
def closers (ts : List Token) : Nat := ts.countP (·.kind = .mark .closeCurly)

/-- The curly brackets of a list balance. -/
structure Balances (ts : List Token) : Prop where
  initial : ∀ us, us <+: ts → closers us ≤ openers us
  total : closers ts = openers ts

/-- To see whether a list balances, it is enough to count in its heads. -/
theorem balances_iff {ts : List Token} :
    Balances ts ↔ (∀ n ≤ ts.length, closers (ts.take n) ≤ openers (ts.take n)) ∧
      closers ts = openers ts := by
  constructor
  · exact fun h => ⟨fun n _ => h.initial _ (List.take_prefix n ts), h.total⟩
  · rintro ⟨hinitial, htotal⟩
    refine ⟨fun us hus => ?_, htotal⟩
    rw [List.prefix_iff_eq_take.1 hus]
    exact hinitial us.length hus.length_le

instance (ts : List Token) : Decidable (Balances ts) := decidable_of_iff' _ balances_iff

/-- In two lists in a row, as many open as in both. -/
theorem openers_append (ts us : List Token) : openers (ts ++ us) = openers ts + openers us :=
  List.countP_append

/-- In two lists in a row, as many close as in both. -/
theorem closers_append (ts us : List Token) : closers (ts ++ us) = closers ts + closers us :=
  List.countP_append

/-- What a balanced list ends with closes at least what it opens. -/
theorem Balances.openers_le {ts us : List Token} (h : Balances (ts ++ us)) :
    openers us ≤ closers us := by
  have hinit := h.initial ts (List.prefix_append ts us)
  have htotal := h.total
  rw [openers_append, closers_append] at htotal
  omega

/-! ### What is due at a window -/

namespace Window

/-- The tokens from the current one on. -/
def rest (w : Window Stream) : List Token := w.current :: w.peek :: w.source.pending

/-- How many more brackets are closed than opened from the current token on. -/
def due (w : Window Stream) : Int := closers w.rest - openers w.rest

/-- Moving on from a token changes what is due by that token. -/
theorem due_eq (w : Window Stream) :
    w.due = closers [w.current] - openers [w.current] + w.advance.due := by
  obtain ⟨⟨pending, final, hfinal⟩, current, peek⟩ := w
  have hcurrent (us : List Token) : current :: us = [current] ++ us := rfl
  simp only [due, rest]
  rw [hcurrent, closers_append, openers_append]
  rcases pending with _ | ⟨t, ts⟩
  · -- the source is spent, and hands out its end, which is no bracket
    simp only [advance, TokenSource.next, Stream.next, closers, openers, List.countP_cons,
      List.countP_nil, hfinal]
    simp
    omega
  · simp only [advance, TokenSource.next, Stream.next]
    omega

/-- Past a `{` there is one more due. -/
theorem due_advance_of_open {w : Window Stream} (h : w.current.kind = .mark .openCurly) :
    w.advance.due = w.due + 1 := by
  have hdue := w.due_eq
  simp [closers, openers, h] at hdue
  omega

/-- Past a `}` there is one less due. -/
theorem due_advance_of_close {w : Window Stream} (h : w.current.kind = .mark .closeCurly) :
    w.due = w.advance.due + 1 := by
  have hdue := w.due_eq
  simp [closers, openers, h] at hdue
  omega

/-- Past any other token there is no less due. -/
theorem due_le_advance {w : Window Stream} (h : w.current.kind ≠ .mark .closeCurly) :
    w.due ≤ w.advance.due := by
  have hdue := w.due_eq
  have hcloses : closers [w.current] = 0 := by simp [closers, h]
  omega

/-- From a window on, brackets close what was opened before, and nothing is due at the end. -/
structure Closes (w : Window Stream) : Prop where
  due_nonneg : ∀ v, w.Onward v → 0 ≤ v.due
  due_eof : ∀ v, w.Onward v → v.current.kind = .eof → v.due = 0

/-- If brackets close from here on, they do so from the next token on. -/
theorem Closes.advance {w : Window Stream} (h : w.Closes) : w.advance.Closes :=
  ⟨fun v hv => h.due_nonneg v (.step hv), fun v hv => h.due_eof v (.step hv)⟩

section

variable {final : Token} {hfinal : final.kind = .eof}

/-- What comes after the window of a list is the window of the end of that list. -/
theorem exists_of_onward_before {ts : List Token} {v : Window Stream}
    (h : (before final hfinal ts).Onward v) :
    ∃ us vs, ts = us ++ vs ∧ v = before final hfinal vs := by
  generalize hw : before final hfinal ts = w at h
  induction h generalizing ts with
  | refl w => exact ⟨[], ts, rfl, hw.symm⟩
  | @step w v _ ih =>
    subst hw
    rcases ts with _ | ⟨t, ts⟩
    · exact ih rfl
    · obtain ⟨us, vs, hts, hv⟩ := ih (advance_before final hfinal t ts).symm
      exact ⟨t :: us, vs, by rw [hts, List.cons_append], hv⟩

/-- At a window with `ts` to come, due are the brackets that `ts` closes more than it opens. -/
theorem due_before (ts : List Token) :
    (before final hfinal ts).due = (closers ts : Int) - openers ts := by
  rcases ts with _ | ⟨t, _ | ⟨u, ts⟩⟩ <;>
    simp [due, rest, before, closers, openers, List.countP_cons, hfinal]

end

/-- **A list whose brackets balance closes what it opens,** from its first token on. -/
theorem closes_start {ts : List Token} {last : Token} (hts : ∀ t ∈ ts, t.kind ≠ .eof)
    (hb : Balances (ts ++ [last])) : (start (Stream.ofList (ts ++ [last]))).Closes := by
  rw [Stream.ofList, start_eq_before]
  constructor
  · intro v hv
    obtain ⟨us, vs, hsplit, rfl⟩ := exists_of_onward_before hv
    rw [hsplit] at hb
    have hle := hb.openers_le
    rw [due_before]
    omega
  · intro v hv heof
    obtain ⟨us, vs, hsplit, rfl⟩ := exists_of_onward_before hv
    rw [due_before]
    rcases vs with _ | ⟨t, vs⟩
    · rfl
    · -- the end of the input is the last token, so nothing comes after it
      rw [current_before] at heof
      rcases List.eq_nil_or_concat vs with rfl | ⟨vs, u, rfl⟩
      · simp [closers, openers, heof]
      · have hassoc : us ++ t :: (vs ++ [u]) = (us ++ t :: vs) ++ [u] := by simp
        rw [List.concat_eq_append, hassoc] at hsplit
        have hmem : t ∈ ts := by
          rw [(List.append_inj' hsplit rfl).1]
          simp
        exact absurd heof (hts t hmem)

end Window
end MonkeySyntax
