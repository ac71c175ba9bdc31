/-
# What a cursor hands out

Whatever it hands out, a cursor only moves on over the text after it (`Cursor.next_splits`).  At the
end of the text it stays where it is, so its tokens are those of `Cursor.tokens` and then the end of
the input for ever (`Cursor.take_tokens`).

A lexer that starts at the beginning of a text never gets to a place where it cannot read: each of
its tokens leaves it where a cursor would be (`Lexer.Holds`).
-/

import MonkeySyntax.Lexer
import MonkeySyntax.Token.Stream

namespace MonkeySyntax

/-- From the byte `m` up to the byte `n` of the text called `file`. -/
def Span.ofBytes (file : String) (m n : Nat) : Span := ⟨⟨.ofNat m, file⟩, ⟨.ofNat n, file⟩⟩

namespace Cursor

/-- Past a lexeme, a cursor has come as many bytes further as it has. -/
theorem spanTo_past (c : Cursor) (lexeme rest : List Char) : c.spanTo (c.past lexeme rest) =
    .ofBytes c.file c.pos (c.pos + Text.byteLength lexeme) := rfl

/-- No lexeme is the end of the input. -/
theorem kind_of_token? {p : Pattern} {lexeme : List Char} {kind : Kind} {value : String}
    (h : p.token? lexeme = some (kind, value)) : kind ≠ .eof ∧ kind ≠ .illegal := by
  cases p <;> simp only [Pattern.token?, Option.some.injEq, Prod.mk.injEq, reduceCtorEq] at h
  case word =>
    rw [← h.1, Kind.ofWord]
    split <;> simp
  all_goals simp [← h.1]

/-- At its end a text hands out its end, and stays there. -/
theorem next_of_nil {c : Cursor} (h : c.rest = []) : c.next = (.eof (c.spanTo c), c) := by
  rw [next]
  split
  · rfl
  · rename_i hr
    cases h.symm.trans hr

/-- A lexeme is handed out, or skipped if it is no token. -/
theorem next_of_first? {c : Cursor} {p : Pattern} {lexeme rest : List Char}
    (h : Pattern.first? c.rest = some (p, lexeme, rest)) :
    c.next = match p.token? lexeme with
      | some (kind, value) =>
        (⟨kind, value, c.spanTo (c.past lexeme rest)⟩, c.past lexeme rest)
      | none => (c.past lexeme rest).next := by
  rw [next]
  split
  · rename_i hr
    rw [hr] at h
    cases h
  · split
    · rename_i hf
      cases h.symm.trans hf
    · rename_i hf
      cases h.symm.trans hf
      rfl

/-- A character that begins no lexeme is handed out by itself. -/
theorem next_of_none {c : Cursor} {ch : Char} {tail : List Char} (hc : c.rest = ch :: tail)
    (h : Pattern.first? c.rest = none) :
    c.next = (⟨.illegal, String.singleton ch, c.spanTo (c.past [ch] tail)⟩, c.past [ch] tail) := by
  rw [next]
  split
  · rename_i hr
    cases hr.symm.trans hc
  · rename_i hr
    cases hr.symm.trans hc
    split
    · rfl
    · rename_i hf
      cases h.symm.trans hf

/-- **At the end of the input a cursor stays,** and finds it there again. -/
theorem next_of_eof {c : Cursor} (h : c.next.1.kind = .eof) : c.next.2.next = c.next := by
  fun_induction next c with
  | case1 c hr => exact next_of_nil hr
  | case2 c ch tail hr hf d => cases h
  | case3 c ch tail hr p lexeme rest hf d kind value ht => exact absurd h (kind_of_token? ht).1
  | case4 c ch tail hr p lexeme rest hf d ht ih => exact ih h

/-- **A cursor moves on over the text after it.** -/
theorem next_splits (c : Cursor) : ∃ used, c.rest = used ++ c.next.2.rest ∧
    c.next.2.pos = c.pos + Text.byteLength used ∧ c.next.2.file = c.file := by
  fun_induction next c with
  | case1 c hr => exact ⟨[], rfl, rfl, rfl⟩
  | case2 c ch tail hr hf d => exact ⟨[ch], hr, rfl, rfl⟩
  | case3 c ch tail hr p lexeme rest hf d kind value ht =>
    exact ⟨lexeme, (Pattern.split_eq_some (Pattern.first?_eq_some hf)).1, rfl, rfl⟩
  | case4 c ch tail hr p lexeme rest hf d ht ih =>
    obtain ⟨used, hused, hpos, hfile⟩ := ih
    refine ⟨lexeme ++ used, ?_, ?_, hfile⟩
    · rw [(Pattern.split_eq_some (Pattern.first?_eq_some hf)).1, List.append_assoc, ← hused]
      rfl
    · rw [hpos, Text.byteLength_append, ← Nat.add_assoc]
      rfl

/-- **A token other than the end of the input takes at least one byte.** -/
theorem pos_lt_next {c : Cursor} (h : c.next.1.kind ≠ .eof) : c.pos < c.next.2.pos := by
  obtain ⟨used, hused, hpos, -⟩ := c.next_splits
  have hlength := c.length_rest_next
  rw [Token.weight_eq_one h, hused, List.length_append] at hlength
  have hused : 0 < Text.byteLength used := Text.byteLength_pos (List.length_pos_iff.1 (by omega))
  omega

/-- **The tokens of a text** are no ends of the input but for the last, which a cursor hands out for
ever once it has handed out the others. -/
theorem take_tokens (c : Cursor) : ∃ pre last, c.tokens = pre ++ [last] ∧ last.kind = .eof ∧
    (∀ t ∈ pre, t.kind ≠ .eof) ∧
    ∀ n, (TokenSource.take (pre.length + n) c).1 = pre ++ List.replicate n last := by
  fun_induction tokens c with
  | case1 c h =>
    refine ⟨[], c.next.1, rfl, h, by simp, fun n => ?_⟩
    have hstays : ∀ d : Cursor, d.next = c.next →
        (TokenSource.take n d).1 = List.replicate n c.next.1 := by
      induction n with
      | zero => exact fun _ _ => rfl
      | succ n ih =>
        intro d hd
        have hnext : TokenSource.next d = c.next := hd
        rw [TokenSource.take, hnext, ih _ (next_of_eof h), List.replicate_succ]
    rw [List.length_nil, Nat.zero_add, hstays c rfl, List.nil_append]
  | case2 c h ih =>
    obtain ⟨pre, last, htokens, hlast, hpre, htake⟩ := ih
    refine ⟨c.next.1 :: pre, last, by rw [htokens, List.cons_append], hlast,
      List.forall_mem_cons.2 ⟨h, hpre⟩, fun n => ?_⟩
    rw [List.length_cons, Nat.add_right_comm, List.cons_append, ← htake n]
    rfl

end Cursor

namespace Lexer

/-- A lexer is where a cursor is. -/
structure Holds (l : Lexer) (c : Cursor) : Prop where
  file : l.file = c.file
  pos : l.pos = c.pos
  /-- What is before the place and what is after it are the text. -/
  text : ∃ before, l.text = before ++ c.rest ∧ Text.byteLength before = c.pos

namespace Holds

variable {l : Lexer} {c : Cursor}

/-- **A lexer where a cursor is takes the same token,** and is where the cursor is then. -/
theorem next (h : l.Holds c) :
    l.next = some (c.next.1, l.seek c.next.2.pos) ∧ (l.seek c.next.2.pos).Holds c.next.2 := by
  obtain ⟨before, htext, hbefore⟩ := h.text
  have hcursor : l.cursor = some c := by
    rw [cursor, remainder, htext, h.pos, ← hbefore, Text.dropBytes_byteLength, hbefore, h.file]
    rfl
  obtain ⟨used, hused, hpos, hfile⟩ := c.next_splits
  refine ⟨by rw [Lexer.next, hcursor]; rfl, h.file.trans hfile.symm, rfl, before ++ used, ?_, ?_⟩
  · rw [List.append_assoc, ← hused]
    exact htext
  · rw [Text.byteLength_append, hbefore, hpos]

/-- **So it does for any number of tokens.** -/
theorem take (h : l.Holds c) (n : Nat) :
    ∃ l', l.take n = some ((TokenSource.take n c).1, l') ∧ l'.Holds (TokenSource.take n c).2 := by
  induction n generalizing l c with
  | zero => exact ⟨l, rfl, h⟩
  | succ n ih =>
    obtain ⟨hnext, hholds⟩ := h.next
    obtain ⟨l', htake, hl'⟩ := ih hholds
    refine ⟨l', ?_, hl'⟩
    simp only [Lexer.take, hnext, htake, Option.bind_eq_bind, Option.bind_some]
    rfl

end Holds

/-- A lexer at the start of a text is where a cursor at its start is. -/
theorem holds_ofText (text : String) (file : Option String) :
    (ofText text file).Holds (Cursor.ofText text file) := ⟨rfl, rfl, [], rfl, rfl⟩

end Lexer
end MonkeySyntax
