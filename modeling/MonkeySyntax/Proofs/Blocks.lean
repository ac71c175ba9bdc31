/-
# Where a block ends

A block is read up to a `}`, and that is its own or one before it.  If nothing goes wrong it is its
own.  But a statement of a block can fail with a hash or a block of its own still open, and then the
`}` of that one is taken for the end of the block:

| text | first error | the block ends at |
| --- | --- | --- |
| `{ [a }` | a `}` where `]` had to follow | its own `}` |
| `{ {a} }` | a `}` where `:` had to follow | the `}` of the hash |

So a block ends at its own `}` if and only if what was given up in it closes as many brackets as it
opens (`block_ends`).  The parser knows of no more open brackets than there are, because giving up
forgets one and nothing makes one up (`Nested`).
-/

import MonkeySyntax.Proofs.Discipline.Expressions
import MonkeySyntax.Proofs.Sifting
import MonkeySyntax.Proofs.Soundness

namespace MonkeySyntax

open MonkeySyntax.Action MonkeySyntax.Parsing MonkeySyntax.Window

variable {σ : Type} [TokenSource σ]

/-- From `w₀` to `w` the tokens `ts` are read.  They close no bracket that they did not open, and
leave at least `n` open, or exactly `n` if all is `quiet`. -/
structure Nested (w₀ : Window σ) (quiet : Prop) (n : Nat) (w : Window σ) (ts : List Token) :
    Prop where
  reads : w₀.Reads ts w
  initial : ∀ us, us <+: ts → closers us ≤ openers us
  deep : n + closers ts ≤ openers ts
  total : quiet → n + closers ts = openers ts

namespace Nested

variable {w₀ w : Window σ} {quiet loud : Prop} {n : Nat} {ts : List Token}

/-- Where less has to be quiet, less is asked. -/
theorem mono (h : Nested w₀ quiet n w ts) (hq : loud → quiet) : Nested w₀ loud n w ts :=
  ⟨h.reads, h.initial, h.deep, fun hl => h.total (hq hl)⟩

/-- A bracket that is open may be forgotten. -/
theorem forget (h : Nested w₀ quiet (n + 1) w ts) : Nested w₀ False n w ts where
  reads := h.reads
  initial := h.initial
  deep := by
    have hdeep := h.deep
    omega
  total := False.elim

/-- One more token is read, after which enough is still open. -/
theorem snoc {m : Nat} (h : Nested w₀ quiet n w ts)
    (hdeep : m + closers (ts ++ [w.current]) ≤ openers (ts ++ [w.current]))
    (htotal : quiet → m + closers (ts ++ [w.current]) = openers (ts ++ [w.current])) :
    Nested w₀ quiet m w.advance (ts ++ [w.current]) where
  reads := h.reads.append (.one w)
  initial us hus := by
    rcases List.prefix_concat_iff.1 hus with rfl | hus
    · exact Nat.le_trans (Nat.le_add_left ..) hdeep
    · exact h.initial us hus
  deep := hdeep
  total := htotal

/-- A token that is no curly bracket leaves as many open as before. -/
theorem pass (h : Nested w₀ quiet n w ts) (hw : w.current.kind.NoCurly) :
    Nested w₀ quiet n w.advance (ts ++ [w.current]) := by
  have hclosers : closers (ts ++ [w.current]) = closers ts := by simp [closers, hw.2]
  have hopeners : openers (ts ++ [w.current]) = openers ts := by simp [openers, hw.1]
  refine h.snoc ?_ ?_ <;> rw [hclosers, hopeners]
  · exact h.deep
  · exact h.total

/-- A `{` leaves one more open. -/
theorem enter (h : Nested w₀ quiet n w ts) (hw : w.current.kind = .mark .openCurly) :
    Nested w₀ quiet (n + 1) w.advance (ts ++ [w.current]) := by
  have hclosers : closers (ts ++ [w.current]) = closers ts := by simp [closers, hw]
  have hopeners : openers (ts ++ [w.current]) = openers ts + 1 := by simp [openers, hw]
  refine h.snoc ?_ ?_ <;> rw [hclosers, hopeners, Nat.add_right_comm]
  · exact Nat.succ_le_succ h.deep
  · exact fun hq => congrArg (· + 1) (h.total hq)

/-- A `}` leaves one less open, if one was. -/
theorem leave (h : Nested w₀ quiet (n + 1) w ts) (hw : w.current.kind = .mark .closeCurly) :
    Nested w₀ quiet n w.advance (ts ++ [w.current]) := by
  have hclosers : closers (ts ++ [w.current]) = closers ts + 1 := by simp [closers, hw]
  have hopeners : openers (ts ++ [w.current]) = openers ts := by simp [openers, hw]
  refine h.snoc ?_ ?_ <;> rw [hclosers, hopeners, ← Nat.add_assoc, Nat.add_right_comm]
  · exact h.deep
  · exact h.total

/-- A token that is not read as part of anything may be a `{`. -/
theorem skip (h : Nested w₀ False n w ts) (hw : w.current.kind ≠ .mark .closeCurly) :
    Nested w₀ False n w.advance (ts ++ [w.current]) := by
  by_cases hopen : w.current.kind = .mark .openCurly
  · have hopened := h.enter hopen
    exact ⟨hopened.reads, hopened.initial, hopened.forget.deep, False.elim⟩
  · exact h.pass ⟨hopen, hw⟩

end Nested

/-- **Brackets are counted from `w₀` on.**  The parser is inside of no more of them than there are,
and of exactly as many as long as there are only the `k` errors from before. -/
def counting (w₀ : Window σ) (k : Nat) : Discipline σ where
  before n w es := k ≤ es.length ∧ ∃ ts, Nested w₀ (es.length = k) n w ts
  after n w es := k ≤ es.length ∧ ∃ ts, Nested w₀ False n w ts ∧
    Nested w₀ (es.length = k) n w.advance (ts ++ [w.current])
  failed n w es := k < es.length ∧ ∃ ts, Nested w₀ False n w ts
  move := by
    rintro n w es ⟨hk, ts, -, h⟩
    exact ⟨hk, _, h⟩
  pass := by
    rintro n w es ⟨hk, ts, h⟩ hplain
    exact ⟨hk, ts, h.mono False.elim, h.pass hplain⟩
  opened := by
    rintro n w es ⟨hk, ts, h⟩ hopen
    exact ⟨hk, _, h.enter hopen⟩
  closed := by
    rintro n w es ⟨hk, ts, h⟩ hclose
    exact ⟨hk, ts, h.forget, h.leave hclose⟩
  closed_failed := by
    rintro n w es ⟨hk, ts, h⟩ hclose
    exact ⟨Nat.le_of_lt hk, ts, h.forget, (h.leave hclose).mono (Nat.ne_of_gt hk)⟩
  fault := by
    rintro n w es d ⟨hk, ts, h⟩ -
    exact ⟨by simpa using Nat.lt_succ_of_le hk, ts, h.mono False.elim⟩
  missing := by
    rintro n w es k' ⟨hk, ts, h, -⟩ - -
    exact ⟨by simpa using Nat.lt_succ_of_le hk, ts, h⟩
  cutOff := by
    rintro n w es ⟨hk, ts, h⟩ -
    exact ⟨by simpa using Nat.lt_succ_of_le hk, ts, h.mono False.elim⟩
  giveUp := by
    rintro n w es ⟨hk, ts, h⟩
    exact ⟨hk, ts, h.forget⟩
  skip := by
    rintro n w es ⟨hk, ts, h⟩ hw
    exact ⟨hk, _, h.skip hw⟩
  resume := by
    rintro n w es ⟨hk, ts, h⟩ hw
    exact ⟨Nat.le_of_lt hk, _, (h.skip hw).mono (Nat.ne_of_gt hk)⟩

/-- The statements of a block are read up to a `}` that is not past the block's own. -/
theorem body_nested {room b : Nat} {p : Parser σ} (hg : p.grammar = .standard)
    (hb : p.blockDepth = b + 1) :
    (many inBody (blockItem (exprAt room)) (blockItem_shrinks _)).Ends p
      (fun _ q => q.current.kind = .mark .closeCurly ∧
        ∃ ts, Nested p.window (q.errors.length = p.errors.length) 0 q.window ts)
      fun _ => True := by
  have hstart : (counting p.window p.errors.length).Before 0 (b + 1) p :=
    ⟨hg, hb, Nat.le_refl _, [], .nil _, by simp [openers, closers], Nat.le_refl 0, fun _ => rfl⟩
  have hcut : (counting p.window p.errors.length).CutsOff 0 := by
    rintro w es ⟨hk, ts, h⟩ -
    exact ⟨by simpa using Nat.lt_succ_of_le hk, ts, h.mono False.elim⟩
  refine (Discipline.keeps_body (Discipline.keeps_exprAt _ room) hcut hstart).mono ?_
    fun _ _ => trivial
  rintro _ q ⟨⟨-, -, -, ts, h⟩ | ⟨⟨-, -, hk, ts, h⟩, -⟩, hclose⟩
  · exact ⟨hclose, ts, h⟩
  · exact ⟨hclose, ts, h.mono (Nat.ne_of_gt hk)⟩

/-- **A block ends at its own closing bracket or at one before it.**  The tokens between its
brackets close none that they do not open.  Some of them, in order, spell the statements of the
block, and the others were given up; it is the block's own bracket if and only if these open as many
brackets as they close, as they do if nothing was wrong in the block. -/
theorem block_ends {room : Nat} {p q : Parser σ} {b : Block} (hg : p.grammar = .standard)
    (hrun : (block (exprAt room)).run p = (some b, q)) :
    q.current.kind = .mark .closeCurly ∧
      ∃ ts, p.window.advance.Reads ts q.window ∧
        (∀ us, us <+: ts → closers us ≤ openers us) ∧
        (q.errors = p.errors → Balances ts) ∧
        ∃ kept lost d, kept.Sublist ts ∧ ts.Perm (kept ++ lost) ∧
          Spells ⟨True, False⟩ (.body b.body) kept d ∧
          (Balances ts ↔ openers lost = closers lost) := by
  have hentered : p.advance.enterBlock.grammar = .standard := hg
  have hbody := (body_nested hentered rfl).and
    (body_stands (transcribes_exprAt room) p.advance.enterBlock hentered)
  have hblock : (block (exprAt room)).Ends p
      (fun b q => q.current.kind = .mark .closeCurly ∧
        (∃ ts, Nested p.window.advance (q.errors.length = p.errors.length) 0 q.window ts) ∧
        (Form.body b.body).Stands room (q.errors ≠ []) p.window.advance q.window)
      fun _ => True := by
    simp only [block, blockAction, ends_bind, ends_current, ends_advance, ends_inBlock, ends_pure]
    exact hbody.mono (fun xs q hq => ⟨hq.1.1, hq.1.2, hq.2.2.2⟩) fun _ _ => trivial
  obtain ⟨hclose, ⟨ts, hnested⟩, ts', d, hreads, -, hspells⟩ := hblock.of_some hrun
  have hne : q.window.current.kind ≠ .eof := Kind.mark_ne_eof hclose
  obtain rfl := hnested.reads.eq_of_ne_eof hreads hne
  obtain ⟨kept, hkept, hclean, -⟩ := hspells.sifted
  obtain ⟨lost, hperm⟩ := hkept.exists_perm_append
  have hlevel : openers kept = closers kept := hclean.level not_false
  have hopeners : openers ts = openers kept + openers lost :=
    (hperm.countP_eq _).trans (openers_append kept lost)
  have hclosers : closers ts = closers kept + closers lost :=
    (hperm.countP_eq _).trans (closers_append kept lost)
  have htotal : Balances ts ↔ closers ts = openers ts :=
    ⟨Balances.total, fun h => ⟨hnested.initial, h⟩⟩
  refine ⟨hclose, ts, hreads, hnested.initial, fun herrors => ?_, kept, lost, d, hkept, hperm,
    hclean, ?_⟩
  · have hquiet := hnested.total (congrArg List.length herrors)
    rwa [Nat.zero_add, ← htotal] at hquiet
  · rw [htotal, hopeners, hclosers]
    omega

/-- `fn() { {a} }` and the end of the input. -/
def lostHash : List Token :=
  [⟨.keyword .fnWord, "fn", .null⟩, ⟨.mark .openParen, "(", .null⟩,
    ⟨.mark .closeParen, ")", .null⟩, ⟨.mark .openCurly, "\x7b", .null⟩,
    ⟨.mark .openCurly, "\x7b", .null⟩, ⟨.identifier, "a", .null⟩,
    ⟨.mark .closeCurly, "\x7d", .null⟩, ⟨.mark .closeCurly, "\x7d", .null⟩, .eof .null]

/-- The parser at the block in it, on its way through the whole. -/
def lostHashBlock : Parser Stream :=
  let p := Parser.start (Stream.ofList lostHash)
  (p.note (.began p.current)).enterExpr.advance.advance.advance

deriving instance DecidableEq for Stream, Window

/-- The hash in `lostHash` fails at its own `}`, where `:` had to follow.  There the block ends,
although the hash is still open, and the block's own `}` is reported as the start of an expression.
-/
theorem block_ends_early :
    Balances lostHash ∧ (∀ t ∈ lostHash.dropLast, t.kind ≠ .eof) ∧
      lostHashBlock.current.kind = .mark .openCurly ∧
      ((block (exprAt 255)).run lostHashBlock).1.isSome ∧
      lostHashBlock.window.advance.Reads
        [⟨.mark .openCurly, "\x7b", .null⟩, ⟨.identifier, "a", .null⟩]
        ((block (exprAt 255)).run lostHashBlock).2.window ∧
      ¬ Balances [⟨.mark .openCurly, "\x7b", .null⟩, ⟨.identifier, "a", .null⟩] ∧
      (parse lostHash).2.errors =
        [⟨.unexpectedToken (.mark .colon) (.mark .closeCurly), .null⟩,
          ⟨.noPrefixRule (.mark .closeCurly), .null⟩] := by
  have hwindow : ((block (exprAt 255)).run lostHashBlock).2.window =
      lostHashBlock.window.advance.advance.advance := by decide +kernel
  refine ⟨by decide, by decide, rfl, by decide +kernel, ?_, by decide, by decide +kernel⟩
  rw [hwindow]
  exact .cons (.cons (.nil _))

/-- The hypotheses of `block_ends` are satisfiable where its brackets do not balance: the block is
read up to the `}` of the hash in it, and on the way no more brackets close than open. -/
theorem block_ends_lostHash : ∃ b q ts, (block (exprAt 255)).run lostHashBlock = (some b, q) ∧
    q.current.kind = .mark .closeCurly ∧ lostHashBlock.window.advance.Reads ts q.window ∧
    ∀ us, us <+: ts → closers us ≤ openers us := by
  have hsome : ((block (exprAt 255)).run lostHashBlock).1.isSome := by decide +kernel
  obtain ⟨b, hb⟩ := Option.isSome_iff_exists.1 hsome
  have hrun : (block (exprAt 255)).run lostHashBlock =
      (some b, ((block (exprAt 255)).run lostHashBlock).2) := Prod.ext hb rfl
  obtain ⟨hclose, ts, hreads, hinitial, -⟩ := block_ends rfl hrun
  exact ⟨b, _, ts, hrun, hclose, hreads, hinitial⟩

end MonkeySyntax
