/-
# Errors come in the order of the text

Every error is about a token: the current one, or the next one if another had to follow.  A parser
only moves on, so the tokens that its errors are about come in the order in which the source hands
them out (`errors_in_order`).  What has to be seen is that no error goes back from the next token to
the current one:

| where | the last error is about |
| --- | --- |
| at the first token of something | that token at most |
| at the last token of something, or where it failed | the token after it at most |

Only at the first token of something is there an error about the current one, and to get there a
parser moves on, unless the text ends in a block.

In a text the place of a token is the number of bytes before it, which a position keeps as a 32-bit
word.
-/

import Mathlib.Algebra.Group.Nat.Defs
import MonkeySyntax.Proofs.Discipline.Expressions
import MonkeySyntax.Proofs.Streaming

namespace MonkeySyntax

namespace TokenSource

variable {σ : Type} [TokenSource σ]

/-- The token that a source hands out after `n` others. -/
def nth (s : σ) (n : Nat) : Token := (next (take n s).2).1

/-- After one more token, a source is where the next one leaves it. -/
theorem take_succ_snd (s : σ) (n : Nat) : (take (n + 1) s).2 = (next (take n s).2).2 := by
  induction n generalizing s with
  | zero => rfl
  | succ n ih => exact ih (next s).2

/-- A list hands out its tokens, and then its end of the input. -/
theorem nth_ofList (ts : List Token) (n : Nat) :
    nth (Stream.ofList ts) n = ts.getD n (Stream.finalOf ts) := by
  have hstream (us : List Token) (final : Token) (hfinal : final.kind = .eof) :
      nth (⟨us, final, hfinal⟩ : Stream) n = us.getD n final := by
    induction n generalizing us with
    | zero => cases us <;> rfl
    | succ n ih =>
      cases us with
      | nil => exact ih []
      | cons u us => exact ih us
  exact hstream ts _ _

end TokenSource

open TokenSource

/-- The window at which the token number `n` is the current one. -/
def Window.nth {σ : Type} [TokenSource σ] (s : σ) (n : Nat) : Window σ :=
  ⟨(take (n + 2) s).2, TokenSource.nth s n, TokenSource.nth s (n + 1)⟩

/-- The window after that of a token is that of the next one. -/
theorem Window.advance_nth {σ : Type} [TokenSource σ] (s : σ) (n : Nat) :
    (Window.nth s n).advance = Window.nth s (n + 1) := by
  rw [Window.nth, Window.nth, take_succ_snd s (n + 2)]
  rfl

/-- An error, the number of the token that was current then, and that of the token it is about. -/
structure Report where
  error : Diagnostic
  current : Nat
  token : Nat

namespace Report

variable {σ : Type} [TokenSource σ]

/-- What a parser of the source `s` can report. -/
inductive Fits (s : σ) : Report → Prop
  | fault {d : Diagnostic} {n : Nat} (hd : (TokenSource.nth s n).Fault d) : Fits s ⟨d, n, n⟩
  | cutOff {n : Nat} (hn : (TokenSource.nth s n).kind = .eof) :
    Fits s ⟨⟨.unexpectedToken (.mark .closeCurly) .eof, (TokenSource.nth s n).start⟩, n, n⟩
  | missing {k : Kind} {n : Nat} (hk : (TokenSource.nth s (n + 1)).kind ≠ k) :
    Fits s ⟨⟨.unexpectedToken k (TokenSource.nth s (n + 1)).kind,
      (TokenSource.nth s (n + 1)).start⟩, n, n + 1⟩

/-- An error has the position of the token that it is about. -/
theorem Fits.position {s : σ} {r : Report} (h : r.Fits s) :
    r.error.position = (TokenSource.nth s r.token).start := by
  cases h with
  | fault hd => cases hd <;> rfl
  | cutOff => rfl
  | missing => rfl

/-- One report may come after another. -/
def Upto (r r' : Report) : Prop := r.current ≤ r'.current ∧ r.token ≤ r'.token

end Report

section

variable {σ : Type} [TokenSource σ]

/-- The errors `es` are reports in order, the last of them `late` tokens after `w` at most. -/
def Told (s : σ) (late : Nat) (w : Window σ) (es : List Diagnostic) : Prop :=
  ∃ n, ∃ reports : List Report, w = Window.nth s n ∧ es = reports.map Report.error ∧
    (∀ r ∈ reports, r.Fits s) ∧ reports.Pairwise Report.Upto ∧
    ∀ r ∈ reports, r.current ≤ n ∧ r.token ≤ n + late

namespace Told

variable {s : σ} {late : Nat} {w : Window σ} {es : List Diagnostic}

/-- The last report may be less far ahead than it could. -/
theorem mono {later : Nat} (h : Told s late w es) (hl : late ≤ later) : Told s later w es := by
  obtain ⟨n, reports, hw, hes, hfits, horder, hlate⟩ := h
  refine ⟨n, reports, hw, hes, hfits, horder, fun r hr => ⟨(hlate r hr).1, ?_⟩⟩
  exact Nat.le_trans (hlate r hr).2 (Nat.add_le_add_left hl n)

/-- At the next window, the last report is one token less ahead. -/
theorem advance (h : Told s (late + 1) w es) : Told s late w.advance es := by
  obtain ⟨n, reports, rfl, hes, hfits, horder, hlate⟩ := h
  refine ⟨n + 1, reports, Window.advance_nth s n, hes, hfits, horder, fun r hr => ?_⟩
  have hr' := hlate r hr
  omega

/-- One more report, about the latest token that one can be about. -/
theorem snoc {d : Diagnostic} (h : Told s late w es)
    (hd : ∀ n, w = Window.nth s n → (⟨d, n, n + late⟩ : Report).Fits s) :
    Told s late w (es ++ [d]) := by
  obtain ⟨n, reports, hw, rfl, hfits, horder, hlate⟩ := h
  refine ⟨n, reports ++ [⟨d, n, n + late⟩], hw, by simp, ?_, ?_, ?_⟩
  · exact List.forall_mem_append.2 ⟨hfits, by simpa using hd n hw⟩
  · refine List.pairwise_append.2 ⟨horder, List.pairwise_singleton _ _, ?_⟩
    rintro r hr _ (_ | ⟨_, ⟨⟩⟩)
    exact hlate r hr
  · exact List.forall_mem_append.2 ⟨hlate, by simp⟩

end Told

/-- **Errors are told in order** at every step. -/
def telling (s : σ) : Discipline σ where
  before _ := Told s 0
  after _ := Told s 1
  failed _ := Told s 1
  move h := h.advance
  pass h _ := h.mono (Nat.zero_le 1)
  opened h _ := (h.mono (Nat.zero_le 1)).advance
  closed h _ := h.mono (Nat.zero_le 1)
  closed_failed h _ := h
  fault h hd := (h.snoc fun n hw => .fault (by rwa [hw] at hd)).mono (Nat.zero_le 1)
  missing h hp _ := h.snoc fun n hw => by
    subst hw
    exact .missing hp
  cutOff h he := (h.snoc fun n hw => by
    subst hw
    exact .cutOff he).mono (Nat.zero_le 1)
  giveUp h := h
  skip h _ := h.advance.mono (Nat.zero_le 1)
  resume h _ := h.advance

/-- **The errors of a program are about tokens in the order in which they are handed out.** -/
theorem reports_of_program (s : σ) : ∃ reports : List Report,
    (Parser.start s).program.2.errors = reports.map Report.error ∧
      (∀ r ∈ reports, r.Fits s) ∧ reports.Pairwise Report.Upto := by
  have hstart : (telling s).Before 0 0 (Parser.start s) :=
    ⟨rfl, rfl, 0, [], rfl, rfl, by simp, .nil, by simp⟩
  have hend := (telling s).keeps_statements (fun _ _ h => h.advance.mono (Nat.zero_le 1))
    (fun _ _ h => h.advance) hstart
  obtain ⟨n, reports, -, hes, hfits, horder, -⟩ := hend.holds
  exact ⟨reports, hes, hfits, horder⟩

end

/-! ### Places in a text -/

namespace Cursor

variable {c : Cursor}

/-- A cursor does not move back. -/
theorem pos_take_le {m n : Nat} (h : m ≤ n) : (take m c).2.pos ≤ (take n c).2.pos := by
  induction h with
  | refl => exact Nat.le_refl _
  | @step n _ ih =>
    obtain ⟨used, -, hpos, -⟩ := (take n c).2.next_splits
    rw [take_succ_snd]
    exact Nat.le_trans ih (hpos ▸ Nat.le_add_right ..)

/-- **A cursor stays in its text.** -/
theorem take_splits (c : Cursor) (n : Nat) : (take n c).2.file = c.file ∧
    (take n c).2.pos + Text.byteLength (take n c).2.rest = c.pos + Text.byteLength c.rest := by
  induction n with
  | zero => exact ⟨rfl, rfl⟩
  | succ n ih =>
    obtain ⟨used, hrest, hpos, hfile⟩ := (take n c).2.next_splits
    rw [take_succ_snd]
    refine ⟨hfile.trans ih.1, ?_⟩
    rw [← ih.2, hrest, Text.byteLength_append, ← Nat.add_assoc]
    exact congrArg (· + _) hpos

/-- **A token starts between the place before it and the place after it,** past the blanks. -/
theorem start_next (c : Cursor) : ∃ pos, c.next.1.start = ⟨.ofNat pos, c.file⟩ ∧
    c.pos ≤ pos ∧ pos ≤ c.next.2.pos := by
  fun_induction next c with
  | case1 c hr => exact ⟨c.pos, rfl, Nat.le_refl _, Nat.le_refl _⟩
  | case2 c ch tail hr hf d => exact ⟨c.pos, rfl, Nat.le_refl _, Nat.le_add_right ..⟩
  | case3 c ch tail hr p lexeme rest hf d kind value ht =>
    exact ⟨c.pos, rfl, Nat.le_refl _, Nat.le_add_right ..⟩
  | case4 c ch tail hr p lexeme rest hf d ht ih =>
    obtain ⟨pos, hstart, hle, hge⟩ := ih
    exact ⟨pos, hstart, Nat.le_trans (Nat.le_add_right ..) hle, hge⟩

section

variable {text : String} (htext : Text.byteLength text.toList < 2 ^ 32) (file : Option String)

/-- A cursor of a text does not go past its end. -/
theorem pos_ofText_le (text : String) (file : Option String) (n : Nat) :
    (take n (ofText text file)).2.pos ≤ Text.byteLength text.toList := by
  have hsplits := ((ofText text file).take_splits n).2
  simp only [ofText, Nat.zero_add] at hsplits ⊢
  omega

include htext

/-- The offset of a token is a number of bytes if the text is not too long. -/
theorem start_nth (n : Nat) :
    (nth (ofText text file) n).start.file = file.getD "shell" ∧
      (take n (ofText text file)).2.pos ≤ (nth (ofText text file) n).start.offset.toNat ∧
      (nth (ofText text file) n).start.offset.toNat ≤ (take (n + 1) (ofText text file)).2.pos := by
  obtain ⟨pos, hstart, hle, hge⟩ := (take n (ofText text file)).2.start_next
  have hend : pos ≤ (take (n + 1) (ofText text file)).2.pos := by
    rw [take_succ_snd]
    exact hge
  have hword : (UInt32.ofNat pos).toNat = pos := by
    have hlength := Nat.le_trans hend (pos_ofText_le text file (n + 1))
    exact UInt32.toNat_ofNat_of_lt (Nat.lt_of_le_of_lt hlength htext)
  have hnth : (nth (ofText text file) n).start = ⟨.ofNat pos, file.getD "shell"⟩ :=
    hstart.trans (congrArg _ ((ofText text file).take_splits n).1)
  rw [hnth, hword]
  exact ⟨rfl, hle, hend⟩

/-- No token starts past the end of the text. -/
theorem offset_nth_le (n : Nat) :
    (nth (ofText text file) n).start.offset.toNat ≤ Text.byteLength text.toList :=
  Nat.le_trans (start_nth htext file n).2.2 (pos_ofText_le text file (n + 1))

/-- No token starts before an earlier one. -/
theorem offset_nth_mono {m n : Nat} (h : m ≤ n) :
    (nth (ofText text file) m).start.offset.toNat ≤
      (nth (ofText text file) n).start.offset.toNat := by
  rcases Nat.eq_or_lt_of_le h with rfl | hlt
  · exact Nat.le_refl _
  · calc (nth (ofText text file) m).start.offset.toNat
      _ ≤ (take (m + 1) (ofText text file)).2.pos := (start_nth htext file m).2.2
      _ ≤ (take n (ofText text file)).2.pos := pos_take_le hlt
      _ ≤ (nth (ofText text file) n).start.offset.toNat := (start_nth htext file n).2.1

end

end Cursor

/-- **Errors come in the order of the text, each at a token of it.**  Every error that is reported
for a list of tokens is about a token that the list hands out, and has its position: the token that
was current, or the one after it if another had to follow.  The numbers of these tokens never
decrease along the errors.  For a text of less than 4 GiB, read at once or token by token, neither
do the offsets of the errors; they lie in the text, under the name of its file. -/
theorem errors_in_order :
    (∀ ts : List Token, ∃ reports : List Report,
      (parse ts).2.errors = reports.map Report.error ∧
        (∀ r ∈ reports, r.Fits (Stream.ofList ts) ∧
          r.error.position = (ts.getD r.token (Stream.finalOf ts)).start) ∧
        reports.Pairwise Report.Upto) ∧
    ∀ (text : String) (file : Option String), Text.byteLength text.toList < 2 ^ 32 →
      ((parseText text file).2.errors.Pairwise fun d e =>
        d.position.offset.toNat ≤ e.position.offset.toNat) ∧
      (∀ d ∈ (parseText text file).2.errors,
        d.position.offset.toNat ≤ Text.byteLength text.toList ∧
          d.position.file = file.getD "shell") ∧
      ∀ tokens, tokenize text file = .ok tokens →
        (parse tokens).2.errors = (parseText text file).2.errors := by
  refine ⟨fun ts => ?_, fun text file htext => ?_⟩
  · obtain ⟨reports, hes, hfits, horder⟩ := reports_of_program (Stream.ofList ts)
    refine ⟨reports, hes, fun r hr => ⟨hfits r hr, ?_⟩, horder⟩
    rw [(hfits r hr).position, nth_ofList]
  · obtain ⟨reports, hes, hfits, horder⟩ := reports_of_program (Cursor.ofText text file)
    rw [parseText, hes]
    refine ⟨?_, ?_, fun tokens htokens => ?_⟩
    · rw [List.pairwise_map]
      refine horder.imp_of_mem fun {r r'} hr hr' hle => ?_
      rw [(hfits r hr).position, (hfits r' hr').position]
      exact Cursor.offset_nth_mono htext file hle.2
    · rw [List.forall_mem_map]
      intro r hr
      rw [(hfits r hr).position]
      exact ⟨Cursor.offset_nth_le htext file _, (Cursor.start_nth htext file _).1⟩
    · rw [(tokenize_eq_ok_iff.1 htokens).1, ← hes]
      exact (Parser.program_congr (Cursor.ofText text file).take_ofList_tokens).2.1

/-- The tokens of the text `] let 1`. -/
def tokensOfBracketLet : List Token :=
  [⟨.mark .closeBracket, "]", ⟨⟨0, "shell"⟩, ⟨1, "shell"⟩⟩⟩,
    ⟨.keyword .letWord, "let", ⟨⟨2, "shell"⟩, ⟨5, "shell"⟩⟩⟩,
    ⟨.integer, "1", ⟨⟨6, "shell"⟩, ⟨7, "shell"⟩⟩⟩, .eof ⟨⟨7, "shell"⟩, ⟨7, "shell"⟩⟩]

/-- The hypotheses of `errors_in_order` are satisfiable by a text with two errors: no expression
starts with the `]` at 0, and no name is the `1` at 6. -/
theorem errors_in_order_bracketLet :
    Text.byteLength "] let 1".toList < 2 ^ 32 ∧ tokenize "] let 1" none = .ok tokensOfBracketLet ∧
      (parseText "] let 1" none).2.errors =
        [⟨.noPrefixRule (.mark .closeBracket), ⟨0, "shell"⟩⟩,
          ⟨.unexpectedToken .identifier .integer, ⟨6, "shell"⟩⟩] ∧
      ((parseText "] let 1" none).2.errors.Pairwise fun d e =>
        d.position.offset.toNat ≤ e.position.offset.toNat) ∧
      (∀ d ∈ (parseText "] let 1" none).2.errors,
        d.position.offset.toNat ≤ Text.byteLength "] let 1".toList ∧
          d.position.file = "shell") ∧
      (parse tokensOfBracketLet).2.errors = (parseText "] let 1" none).2.errors := by
  have hlength : Text.byteLength "] let 1".toList < 2 ^ 32 := by decide
  have htokens : tokenize "] let 1" none = .ok tokensOfBracketLet :=
    tokenize_eq_ok_iff.2 (by decide +kernel)
  obtain ⟨horder, hplaces, hsame⟩ := errors_in_order.2 "] let 1" none hlength
  exact ⟨hlength, htokens, by decide +kernel, horder, hplaces, hsame tokensOfBracketLet htokens⟩

end MonkeySyntax
