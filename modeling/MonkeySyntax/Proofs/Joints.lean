/-
# Where a lexeme ends

A pattern takes as much as it can, so what comes after a lexeme decides whether it ends there.  Only
the next character counts: a lexeme that what follows makes longer is made longer by one character
(`Pattern.concat_mem_lexemes`).  So a lexeme at the head of one text is at the head of another as
well, if the other goes on with a character that does not make it longer
(`Pattern.first?_append_iff`).

| lexeme | made longer by a blank |
| --- | --- |
| word, number, string, mark | never |
| blanks | always |
| comment | by any blank but a line feed |

A token ends before a blank therefore, and none begins with one.  What is skipped before a token
may be skipped in parts: a cursor behind some of it hands out the same token
(`Cursor.next_of_gap`).
-/

import MonkeySyntax.Proofs.Coverage
import MonkeySyntax.Proofs.Longest

namespace MonkeySyntax

open Text (isBlank)

namespace Pattern

variable {a b s : List Char} {c : Char} {p q : Pattern}

/-- A character up to `c` stays where it is if more follows. -/
theorem mem_append_cons {d : Char} (hd : d ∈ a ++ [c]) : d ∈ a ++ c :: s := by
  rw [← List.singleton_append, ← List.append_assoc]
  exact List.mem_append_left s hd

/-- A run that is cut off behind its second character or later is a run. -/
theorem IsRun.of_append {start part : Char → Bool} (h : IsRun start part (a ++ c :: s))
    (ha : a ≠ []) : IsRun start part (a ++ [c]) := by
  obtain ⟨x, tail, rfl⟩ := List.exists_cons_of_ne_nil ha
  obtain ⟨y, rest, heq, hy, hrest⟩ := h
  obtain ⟨rfl, rfl⟩ := List.cons.inj heq
  refine ⟨x, tail ++ [c], rfl, hy, fun d hd => hrest d ?_⟩
  exact mem_append_cons hd

/-- Comments and the division sign are all that begins with a slash. -/
theorem slash_of_starts (h : p.starts '/') : p = .comment ∨ p = .mark .slash := by
  cases p with
  | comment => exact .inl rfl
  | word | number | blanks | quoted => exact absurd h (by decide)
  | mark m =>
    refine .inr ?_
    cases m with
    | slash => rfl
    | _ => exact absurd h (by decide)

/-- Only blanks begin with a blank. -/
theorem blanks_of_starts (h : p.starts c) (hc : isBlank c) : p = .blanks := by
  have hpart : ¬ isWordPart c := fun hpart => by
    rw [(Cursor.opening_of_isWordPart hpart).1] at hc
    cases hc
  rcases starts_cases h with ⟨-, hword⟩ | ⟨-, hdigit⟩ | ⟨rfl, -⟩ | ⟨-, -, hblank⟩
  · exact absurd (Cursor.isWordPart_of_isWordStart hword) hpart
  · exact absurd (Cursor.isWordPart_of_isDigit hdigit) hpart
  · rfl
  · rw [hblank] at hc
    cases hc

/-- Of two strings that begin alike neither is longer. -/
theorem not_append_mem_quoted (ha : a ∈ language .quoted) : a ++ c :: s ∉ language .quoted := by
  intro h
  obtain ⟨body, hbody, rfl⟩ := mem_quoted_iff.1 ha
  obtain ⟨body', hbody', heq⟩ := mem_quoted_iff.1 h
  have hclose := closeQuote_append hbody (c :: s)
  have hclose' := closeQuote_append hbody' []
  have hsame : body ++ '"' :: (c :: s) = body' ++ ['"'] := by
    simpa using heq
  rw [hsame, hclose'] at hclose
  cases (Prod.mk.inj (Option.some.inj hclose)).2

/-- **What makes a lexeme longer does so by its first character.** -/
theorem concat_mem_lexemes (ha : a ∈ lexemes) (h : a ++ c :: s ∈ lexemes) : a ++ [c] ∈ lexemes := by
  have hne := ne_nil_of_mem_lexemes ha
  obtain ⟨q, hq, hlong⟩ := h
  cases q with
  | word | number | blanks =>
    exact ⟨_, hq, mem_mul_kstar_iff.2 ((mem_mul_kstar_iff.1 hlong).of_append hne)⟩
  | quoted =>
    obtain ⟨p, -, hp⟩ := ha
    obtain ⟨x, tail, rfl, hx⟩ := exists_of_mem hp
    obtain ⟨body, -, heq⟩ := mem_quoted_iff.1 hlong
    obtain ⟨rfl, -⟩ := List.cons.inj heq
    obtain rfl := eq_quoted_of_starts hx
    exact absurd hlong (not_append_mem_quoted hp)
  | comment =>
    refine ⟨_, hq, mem_comment_iff.2 ?_⟩
    obtain ⟨body, heq, hbody⟩ := mem_comment_iff.1 hlong
    match a, hne with
    | [x], _ =>
      obtain ⟨rfl, htail⟩ := List.cons.inj heq
      obtain ⟨rfl, -⟩ := List.cons.inj htail
      exact ⟨[], rfl, List.forall_mem_nil _⟩
    | x :: y :: tail, _ =>
      obtain ⟨rfl, htail⟩ := List.cons.inj heq
      obtain ⟨rfl, rfl⟩ := List.cons.inj htail
      exact ⟨tail ++ [c], rfl, fun d hd => hbody d (mem_append_cons hd)⟩
  | mark m =>
    -- no mark has more than two characters
    have hlength : (a ++ c :: s).length ≤ 2 := by
      rw [mem_singleton_iff.1 hlong]
      cases m <;> decide
    have hpos := List.length_pos_iff.2 hne
    have hs : s = [] := by
      rw [List.length_append, List.length_cons] at hlength
      exact List.length_eq_zero_iff.1 (by omega)
    exact ⟨_, hq, hs ▸ hlong⟩

/-- A lexeme is the longest one at the head of a text if the character after it makes none longer.
-/
theorem longest_append_iff (ha : a ∈ lexemes) :
    Longest lexemes (a ++ b) a ↔ ∀ c ∈ b.head?, a ++ [c] ∉ lexemes := by
  constructor
  · rintro hlongest c hc hmem
    obtain ⟨tail, rfl⟩ := List.head?_eq_some_iff.1 hc
    have hle := hlongest.greatest _ hmem ⟨tail, by simp⟩
    rw [List.length_append, List.length_singleton] at hle
    omega
  · intro h
    refine ⟨ha, List.prefix_append a b, fun s hs hhead => ?_⟩
    by_contra hlt
    obtain ⟨t, rfl⟩ := List.prefix_of_prefix_length_le (List.prefix_append a b) hhead (by omega)
    cases t with
    | nil => simp at hlt
    | cons c t =>
      obtain ⟨rest, hrest⟩ := hhead
      rw [List.append_assoc] at hrest
      have hb := List.append_cancel_left hrest
      exact h c (by rw [← hb]; rfl) (concat_mem_lexemes ha hs)

/-- **A lexeme ends where the next character does not make it longer.** -/
theorem first?_append_iff : first? (a ++ b) = some (p, a, b) ↔
    a ∈ p.language ∧ ∀ c ∈ b.head?, a ++ [c] ∉ lexemes := by
  constructor
  · intro h
    have ha := mem_of_first? h
    exact ⟨ha, (longest_append_iff ⟨p, mem_table p, ha⟩).1 (longest_of_first? h)⟩
  · rintro ⟨ha, h⟩
    obtain ⟨b', hfirst⟩ :=
      first?_eq_some_iff.2 ⟨ha, (longest_append_iff ⟨p, mem_table p, ha⟩).2 h⟩
    have hsplit := (split_eq_some (first?_eq_some hfirst)).1
    rwa [← List.append_cancel_left hsplit] at hfirst

/-! ### Tokens and blanks -/

/-- Layout is no token. -/
theorem ne_blanks_of_token? {t : Kind × String} (ht : p.token? a = some t) :
    p ≠ .blanks ∧ p ≠ .comment := by
  constructor <;>
  · rintro rfl
    cases ht

/-- No token begins with a blank. -/
theorem exists_of_token? {t : Kind × String} (ha : a ∈ p.language) (ht : p.token? a = some t) :
    ∃ x tail, a = x :: tail ∧ p.starts x ∧ isBlank x = false := by
  obtain ⟨x, tail, rfl, hx⟩ := exists_of_mem ha
  refine ⟨x, tail, rfl, hx, Bool.eq_false_iff.2 fun hblank => ?_⟩
  exact (ne_blanks_of_token? ht).1 (blanks_of_starts hx hblank)

/-- **A blank does not make a token longer.** -/
theorem not_concat_mem_of_token? {t : Kind × String} (ha : a ∈ p.language)
    (ht : p.token? a = some t) (hc : isBlank c) : a ++ [c] ∉ lexemes := by
  rintro ⟨q, -, hq⟩
  obtain ⟨x, tail, rfl, hstarts, hx⟩ := exists_of_token? ha ht
  have hpart : ¬ isWordPart c := fun hpart => by
    rw [(Cursor.opening_of_isWordPart hpart).1] at hc
    cases hc
  cases q with
  | word =>
    obtain ⟨y, rest, heq, -, hrest⟩ := mem_mul_kstar_iff.1 hq
    obtain ⟨-, rfl⟩ := List.cons.inj heq
    exact hpart (hrest c (by simp))
  | number =>
    obtain ⟨y, rest, heq, -, hrest⟩ := mem_mul_kstar_iff.1 hq
    obtain ⟨-, rfl⟩ := List.cons.inj heq
    exact hpart (Cursor.isWordPart_of_isDigit (hrest c (by simp)))
  | blanks =>
    obtain ⟨y, rest, heq, hy, -⟩ := mem_mul_kstar_iff.1 hq
    obtain ⟨rfl, -⟩ := List.cons.inj heq
    rw [hx] at hy
    cases hy
  | quoted =>
    obtain ⟨body, -, heq⟩ := mem_quoted_iff.1 hq
    obtain ⟨-, hlast⟩ := List.append_inj' (heq.trans (List.cons_append ..).symm) rfl
    obtain rfl := List.singleton_inj.1 hlast
    cases hc
  | comment =>
    obtain ⟨body, heq, -⟩ := mem_comment_iff.1 hq
    obtain ⟨rfl, htail⟩ := List.cons.inj heq
    obtain rfl | rfl := slash_of_starts hstarts
    · exact (ne_blanks_of_token? ht).2 rfl
    · obtain ⟨-, rfl⟩ := List.cons.inj (mem_singleton_iff.1 ha)
      obtain ⟨rfl, -⟩ := List.cons.inj htail
      cases hc
  | mark m =>
    have hmark : m.text.toList.all (!isBlank ·) := by cases m <;> decide
    have hlast := List.all_eq_true.1 hmark c (by rw [← mem_singleton_iff.1 hq]; simp)
    rw [hc] at hlast
    cases hlast

/-- **A token ends before a blank** as it does before the character that was there. -/
theorem first?_of_token? {t : Kind × String} {b' : List Char}
    (hfirst : first? (a ++ b) = some (p, a, b)) (ht : p.token? a = some t)
    (hb : ∀ d ∈ b'.head?, d ∈ b.head? ∨ isBlank d) : first? (a ++ b') = some (p, a, b') := by
  obtain ⟨ha, hnext⟩ := first?_append_iff.1 hfirst
  refine first?_append_iff.2 ⟨ha, fun d hd => ?_⟩
  rcases hb d hd with hd | hd
  · exact hnext d hd
  · exact not_concat_mem_of_token? ha ht hd

/-! ### What is skipped -/

/-- Blanks are taken up to the first character that is none. -/
theorem first?_blanks (hne : a ≠ []) (ha : ∀ d ∈ a, isBlank d)
    (hb : ∀ d ∈ b.head?, isBlank d = false) : first? (a ++ b) = some (.blanks, a, b) := by
  obtain ⟨x, tail, rfl⟩ := List.exists_cons_of_ne_nil hne
  obtain ⟨hx, htail⟩ := List.forall_mem_cons.1 ha
  refine first?_append_iff.2 ⟨mem_mul_kstar_iff.2 ⟨x, tail, rfl, hx, htail⟩, ?_⟩
  rintro d hd ⟨q, -, hq⟩
  obtain ⟨y, rest, heq, hy⟩ := exists_of_mem hq
  obtain ⟨rfl, -⟩ := List.cons.inj heq
  obtain rfl := blanks_of_starts hy hx
  obtain ⟨y, rest, heq, -, hrest⟩ := mem_mul_kstar_iff.1 hq
  obtain ⟨-, rfl⟩ := List.cons.inj heq
  exact Bool.eq_false_iff.1 (hb d hd) (hrest d (by simp))

/-- A comment is taken up to the line feed. -/
theorem first?_comment {body : List Char} (hbody : ∀ d ∈ body, d ≠ '\n')
    (hb : ∀ d ∈ b.head?, d = '\n') :
    first? ('/' :: '/' :: body ++ b) = some (.comment, '/' :: '/' :: body, b) := by
  refine first?_append_iff.2 ⟨mem_comment_iff.2 ⟨body, rfl, hbody⟩, ?_⟩
  rintro d hd ⟨q, -, hq⟩
  obtain ⟨y, rest, heq, hy⟩ := exists_of_mem hq
  obtain ⟨rfl, -⟩ := List.cons.inj heq
  obtain rfl | rfl := slash_of_starts hy
  · obtain ⟨body', heq, hbody'⟩ := mem_comment_iff.1 hq
    obtain rfl : body ++ [d] = body' := (List.cons.inj (List.cons.inj heq).2).2
    exact hbody' d (by simp) (hb d hd)
  · cases (List.cons.inj (mem_singleton_iff.1 hq)).2

/-- A comment goes on up to a line feed or the end of the text. -/
theorem stop_of_first?_comment {cs : List Char} (h : first? cs = some (.comment, a, b)) :
    ∀ d ∈ b.head?, d = '\n' := by
  intro d hd
  obtain rfl : cs = a ++ b := (split_eq_some (first?_eq_some h)).1
  obtain ⟨ha, hnext⟩ := first?_append_iff.1 h
  obtain ⟨body, rfl, hbody⟩ := mem_comment_iff.1 ha
  by_contra hline
  refine hnext d hd ⟨.comment, mem_table _, mem_comment_iff.2 ⟨body ++ [d], rfl, ?_⟩⟩
  exact List.forall_mem_append.2 ⟨hbody, List.forall_mem_singleton.2 hline⟩

end Pattern

namespace Cursor

variable {c d : Cursor} {a rest : List Char}

/-- What a cursor hands out next decides what it hands out later. -/
theorem tokens_congr (h : c.next = d.next) : c.tokens = d.tokens := by
  rw [tokens]
  simp only [h]
  exact (tokens.eq_def d).symm

/-- At its end a text has no token but the end. -/
theorem tokens_of_eof (h : c.next.1.kind = .eof) : c.tokens = [c.next.1] := by
  rw [tokens, dif_pos h]

/-- Before its end, the tokens of a text are the next one and those after it. -/
theorem tokens_of_ne_eof (h : c.next.1.kind ≠ .eof) : c.tokens = c.next.1 :: c.next.2.tokens := by
  rw [tokens, dif_neg h]

/-- The next token is one of those to come. -/
theorem next_mem_tokens (c : Cursor) : c.next.1 ∈ c.tokens := by
  by_cases h : c.next.1.kind = .eof
  · rw [tokens_of_eof h]
    exact List.mem_singleton_self _
  · rw [tokens_of_ne_eof h]
    exact List.mem_cons_self

/-- A lexeme that is a token is the first of the tokens. -/
theorem tokens_of_first? {p : Pattern} {kind : Kind} {value : String}
    (hfirst : Pattern.first? c.rest = some (p, a, rest)) (ht : p.token? a = some (kind, value)) :
    c.tokens = ⟨kind, value, c.spanTo (c.past a rest)⟩ :: (c.past a rest).tokens := by
  have hnext := next_of_first? hfirst
  rw [ht] at hnext
  rw [tokens_of_ne_eof (by rw [hnext]; exact (kind_of_token? ht).1), hnext]

/-- Past nothing a cursor is where it was. -/
theorem past_nil (c : Cursor) : c.past [] c.rest = c := rfl

/-- Past one piece of a text and then another is past both. -/
theorem past_past (c : Cursor) (a b rest : List Char) :
    (c.past a (b ++ rest)).past b rest = c.past (a ++ b) rest := by
  unfold past
  rw [Text.byteLength_append, Nat.add_assoc]

/-- A cursor behind the blanks before a token hands out the same token. -/
theorem next_of_blanks (hc : c.rest = a ++ rest) (ha : ∀ ch ∈ a, isBlank ch)
    (hrest : ∀ ch ∈ rest.head?, isBlank ch = false) : c.next = (c.past a rest).next := by
  by_cases hne : a = []
  · subst hne
    obtain rfl : c.rest = rest := hc
    rw [past_nil]
  · rw [next_of_first? (hc ▸ Pattern.first?_blanks hne ha hrest)]
    rfl

/-- Blanks need not be skipped all at once. -/
theorem next_of_blank {ch : Char} (hc : c.rest = ch :: rest) (hch : isBlank ch) :
    c.next = (c.past [ch] rest).next := by
  obtain ⟨as, bs, rfl, has, hbs⟩ : ∃ as bs, rest = as ++ bs ∧ (∀ x ∈ as, isBlank x) ∧
      ∀ x ∈ bs.head?, isBlank x = false := by
    refine ⟨rest.takeWhile isBlank, rest.dropWhile isBlank, List.takeWhile_append_dropWhile.symm,
      List.all_eq_true.1 List.all_takeWhile, fun x hx => ?_⟩
    have hstop := List.head?_dropWhile_not isBlank rest
    rw [Option.mem_def.1 hx] at hstop
    simpa using hstop
  rw [next_of_blanks (a := ch :: as) hc (List.forall_mem_cons.2 ⟨hch, has⟩) hbs,
    next_of_blanks (c := c.past [ch] (as ++ bs)) rfl has hbs, past_past]
  rfl

/-- So does a cursor behind a comment. -/
theorem next_of_comment {body : List Char} (hc : c.rest = '/' :: '/' :: body ++ rest)
    (hbody : ∀ ch ∈ body, ch ≠ '\n') (hrest : ∀ ch ∈ rest.head?, ch = '\n') :
    c.next = (c.past ('/' :: '/' :: body) rest).next := by
  rw [next_of_first? (hc ▸ Pattern.first?_comment hbody hrest)]
  rfl

/-- **What is skipped before a token may be skipped in parts.** -/
theorem next_of_gap {g : List Char} (h : Gap rest g) (hc : c.rest = g ++ rest) :
    c.next = (c.past g rest).next := by
  induction h generalizing c with
  | nil =>
    obtain rfl : c.rest = rest := hc
    rw [past_nil]
  | @blank ch g hch _ ih =>
    have hsplit : c.rest = ch :: (g ++ rest) := hc
    rw [next_of_blank hsplit hch, ih (c := c.past [ch] (g ++ rest)) rfl, past_past]
    rfl
  | @comment body g hbody hstop _ ih =>
    have hsplit : c.rest = '/' :: '/' :: body ++ (g ++ rest) := by
      rw [hc]
      simp
    rw [next_of_comment hsplit hbody hstop,
      ih (c := c.past ('/' :: '/' :: body) (g ++ rest)) rfl, past_past]
    rfl

/-- **What is skipped before a token may be left out,** and the tokens are the same. -/
theorem tokens_of_gap {g : List Char} (h : Gap rest g) (hc : c.rest = g ++ rest) :
    c.tokens = (c.past g rest).tokens :=
  tokens_congr (next_of_gap h hc)

end Cursor
end MonkeySyntax
