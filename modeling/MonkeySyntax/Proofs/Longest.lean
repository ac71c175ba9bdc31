/-
# The first match is the longest match

The patterns are tried in the order of `Pattern.table`, and the first that has a lexeme at the head
of a text decides.  What it takes is the longest head of the text that is in the language of any of
the patterns, and no other pattern has that lexeme in its language (`Pattern.first?_eq_some_iff`).

Which pattern a lexeme is of shows in its first character, with three exceptions:

| tried first | tried later |
| --- | --- |
| a comment | `/` |
| `==` | `=` |
| `!=` | `!` |

In each of them the lexemes of the first pattern have at least two characters, and the second has
only one lexeme, of one character (`Pattern.table_ordered`).  So nothing longer is ever left for a
later pattern.
-/

import Mathlib.Data.List.Pairwise
import MonkeySyntax.Proofs.Languages

namespace MonkeySyntax

/-- The texts of a kind of token.  Names are the words that are no keywords. -/
def Kind.language : Kind → Language Char
  | keyword w => {w.text.toList}
  | identifier => {cs | cs ∈ Pattern.language .word ∧ ∀ w : Keyword, cs ≠ w.text.toList}
  | integer => Pattern.language .number
  | string => Pattern.language .quoted
  | mark m => {m.text.toList}
  | illegal => 0
  | eof => 0

namespace Pattern

open Computability

/-- The texts that are lexemes of any pattern. -/
def lexemes : Language Char := {cs | ∃ p ∈ table, cs ∈ p.language}

variable {cs a b : List Char} {p q : Pattern} {c : Char}

/-- Every pattern is in the table. -/
theorem mem_table (p : Pattern) : p ∈ table := by
  rcases p with _ | _ | _ | _ | _ | m
  iterate 5 decide
  cases m <;> decide

/-! ### How lexemes begin -/

/-- The first character of the lexemes of a pattern, if all of them begin alike. -/
def lead? : Pattern → Option Char
  | word => none
  | number => none
  | blanks => none
  | quoted => some '"'
  | comment => some '/'
  | mark m => some m.initial

/-- Whether `c` is the first character of a lexeme of the pattern. -/
def starts (c : Char) : Pattern → Bool
  | word => isWordStart c
  | number => c.isDigit
  | blanks => Text.isBlank c
  | p => p.lead? = some c

/-- A lexeme begins with a character that its pattern starts with. -/
theorem exists_of_mem (h : a ∈ p.language) : ∃ c tail, a = c :: tail ∧ p.starts c := by
  cases p with
  | word =>
    obtain ⟨c, tail, rfl, hc, -⟩ := mem_mul_kstar_iff.1 h
    exact ⟨c, tail, rfl, hc⟩
  | number =>
    obtain ⟨c, tail, rfl, hc, -⟩ := mem_mul_kstar_iff.1 h
    exact ⟨c, tail, rfl, hc⟩
  | blanks =>
    obtain ⟨c, tail, rfl, hc, -⟩ := mem_mul_kstar_iff.1 h
    exact ⟨c, tail, rfl, hc⟩
  | quoted =>
    obtain ⟨body, -, rfl⟩ := mem_quoted_iff.1 h
    exact ⟨_, _, rfl, by decide⟩
  | comment =>
    obtain ⟨body, rfl, -⟩ := mem_comment_iff.1 h
    exact ⟨_, _, rfl, by decide⟩
  | mark m =>
    obtain rfl := mem_singleton_iff.1 h
    obtain ⟨tail, htail⟩ := m.exists_text
    exact ⟨_, tail, htail, decide_eq_true rfl⟩

/-- No lexeme is empty. -/
theorem ne_nil_of_mem_lexemes (h : a ∈ lexemes) : a ≠ [] := by
  obtain ⟨p, -, hp⟩ := h
  obtain ⟨c, tail, rfl, -⟩ := exists_of_mem hp
  exact List.cons_ne_nil c tail

/-- A character that only the lexemes of marks, strings and comments begin with. -/
theorem not_isWordPart_of_lead (h : p.lead? = some c) :
    isWordPart c = false ∧ Text.isBlank c = false := by
  cases p <;> cases h
  · decide
  · decide
  · rename_i m
    cases m <;> decide

/-- What a pattern starts with is part of a word, a digit, a blank, or the one character that all
its lexemes begin with. -/
theorem starts_cases (h : p.starts c) : p = .word ∧ isWordStart c ∨ p = .number ∧ c.isDigit ∨
    p = .blanks ∧ Text.isBlank c ∨
    p.lead? = some c ∧ isWordPart c = false ∧ Text.isBlank c = false := by
  have hlead (h : p.lead? = some c) :
      p.lead? = some c ∧ isWordPart c = false ∧ Text.isBlank c = false :=
    ⟨h, not_isWordPart_of_lead h⟩
  cases p with
  | word => exact .inl ⟨rfl, h⟩
  | number => exact .inr (.inl ⟨rfl, h⟩)
  | blanks => exact .inr (.inr (.inl ⟨rfl, h⟩))
  | quoted | comment | mark => exact .inr (.inr (.inr (hlead (of_decide_eq_true h))))

/-- The patterns of which the lexemes of the first begin with the lexeme of the second. -/
def overlaps : List (Pattern × Pattern) :=
  [(comment, mark .slash), (mark .equals, mark .assign), (mark .notEquals, mark .not)]

/-- Of two patterns that overlap, the first has the longer lexemes. -/
theorem length_of_overlaps (h : (p, q) ∈ overlaps) :
    (∀ s ∈ p.language, 2 ≤ s.length) ∧ ∀ s ∈ q.language, s.length = 1 := by
  have hmark : ∀ m : Mark, ∀ s ∈ language (.mark m), s.length = m.text.toList.length :=
    fun m s hs => congrArg List.length (mem_singleton_iff.1 hs)
  simp only [overlaps, List.mem_cons, Prod.mk.injEq, List.not_mem_nil, or_false] at h
  rcases h with ⟨rfl, rfl⟩ | ⟨rfl, rfl⟩ | ⟨rfl, rfl⟩
  · refine ⟨fun s hs => ?_, hmark .slash⟩
    obtain ⟨body, rfl, -⟩ := mem_comment_iff.1 hs
    simp
  · exact ⟨fun s hs => (hmark .equals s hs).ge, hmark .assign⟩
  · exact ⟨fun s hs => (hmark .notEquals s hs).ge, hmark .not⟩

/-- Of two patterns whose lexemes begin alike, the one with the longer lexemes is tried first. -/
theorem leads_ordered : table.Pairwise fun p q =>
    p ≠ q ∧ (p.lead?.isSome → p.lead? = q.lead? → (p, q) ∈ overlaps) := by
  decide +kernel

/-- **Only where one pattern extends the other do two patterns begin with one character,** and the
one that extends is tried first. -/
theorem table_ordered : table.Pairwise fun p q =>
    p ≠ q ∧ ∀ c, p.starts c → q.starts c → (p, q) ∈ overlaps := by
  refine leads_ordered.imp fun {p q} ⟨hne, hlead⟩ => ⟨hne, fun c hp hq => ?_⟩
  have hdigit : c.isDigit → isWordPart c ∧ isWordStart c = false := fun h =>
    ⟨Cursor.isWordPart_of_isDigit h, not_isWordStart h⟩
  have hword : isWordStart c → isWordPart c := Cursor.isWordPart_of_isWordStart
  have hblank : isWordPart c → Text.isBlank c = false := fun h => (Cursor.opening_of_isWordPart h).1
  have hp' := starts_cases hp
  have hq' := starts_cases hq
  grind

/-- Two lexemes at the head of one text, of a pattern and of one that is tried later: the later has
one character. -/
theorem length_of_later {s : List Char} {tried left : List Pattern}
    (htable : table = tried ++ p :: left) (hq : q ∈ left) (ha : a ∈ p.language)
    (hs : s ∈ q.language) (hahead : a <+: cs) (hshead : s <+: cs) : s.length = 1 := by
  have hordered := table_ordered
  rw [htable] at hordered
  obtain ⟨-, hstarts⟩ := (List.pairwise_cons.1 (List.pairwise_append.1 hordered).2.1).1 q hq
  obtain ⟨c, tail, rfl, hc⟩ := exists_of_mem ha
  obtain ⟨d, tail', rfl, hd⟩ := exists_of_mem hs
  obtain ⟨rest, hrest⟩ := hahead
  obtain ⟨rest', hrest'⟩ := hshead
  obtain ⟨rfl, -⟩ := List.cons.inj (hrest.trans hrest'.symm)
  exact (length_of_overlaps (hstarts c hc hd)).2 _ hs

/-- **No lexeme is one of two patterns.** -/
theorem eq_of_mem (hp : a ∈ p.language) (hq : a ∈ q.language) : p = q := by
  let R (p q : Pattern) : Prop := a ∈ p.language → a ∈ q.language → p = q
  have hsymm : Std.Symm R := ⟨fun p q h hq hp => (h hp hq).symm⟩
  have hordered : table.Pairwise R := by
    refine table_ordered.imp fun {p q} ⟨_, hstarts⟩ hp hq => ?_
    obtain ⟨c, tail, rfl, hc⟩ := exists_of_mem hp
    obtain ⟨d, tail', heq, hd⟩ := exists_of_mem hq
    cases heq
    obtain ⟨hlong, hshort⟩ := length_of_overlaps (hstarts c hc hd)
    have hlong := hlong _ hp
    have hshort := hshort _ hq
    omega
  exact hordered.forall_of_forall (fun _ _ _ _ => rfl) (mem_table p) (mem_table q) hp hq

/-! ### The pattern that decides -/

/-- The patterns before the one that decides have no lexeme at the head of the text. -/
theorem table_of_first? (h : first? cs = some (p, a, b)) : ∃ tried left,
    table = tried ++ p :: left ∧ p.split cs = some (a, b) ∧ ∀ q ∈ tried, q.split cs = none := by
  obtain ⟨tried, r, left, htable, hr, htried⟩ := List.findSome?_eq_some_iff.1 h
  obtain ⟨_, hsplit, heq⟩ := Option.map_eq_some_iff.1 hr
  cases heq
  exact ⟨tried, left, htable, hsplit, fun q hq => Option.map_eq_none_iff.1 (htried q hq)⟩

/-- **The first pattern that has a lexeme takes the longest of all.** -/
theorem longest_of_first? (h : first? cs = some (p, a, b)) : Longest lexemes cs a := by
  obtain ⟨tried, left, htable, hsplit, htried⟩ := table_of_first? h
  have hlongest := longest_of_split hsplit
  refine ⟨⟨p, mem_table p, hlongest.mem⟩, hlongest.isHead, fun s ⟨q, hq, hs⟩ hhead => ?_⟩
  rw [htable, List.mem_append, List.mem_cons] at hq
  rcases hq with hq | rfl | hq
  · exact absurd hhead (not_isHead_of_split (htried q hq) hs)
  · exact hlongest.greatest s hs hhead
  · rw [length_of_later htable hq hlongest.mem hs hlongest.isHead hhead]
    exact List.length_pos_iff.2 (split_eq_some hsplit).2

/-- Nothing matches where no head of the text is a lexeme. -/
theorem first?_eq_none_iff : first? cs = none ↔ ∀ a ∈ lexemes, ¬a <+: cs := by
  constructor
  · rintro hnone a ⟨p, hp, ha⟩
    have hsplit := Option.map_eq_none_iff.1 (List.findSome?_eq_none_iff.1 hnone p hp)
    exact not_isHead_of_split hsplit ha
  · intro hnone
    by_contra hsome
    obtain ⟨⟨p, a, b⟩, hfirst⟩ := Option.ne_none_iff_exists'.1 hsome
    have hlongest := longest_of_first? hfirst
    exact hnone a hlongest.mem hlongest.isHead

/-- **The pattern that decides is the only one** that the longest lexeme at the head of the text is
of. -/
theorem first?_eq_some_iff : (∃ b, first? cs = some (p, a, b)) ↔
    a ∈ p.language ∧ Longest lexemes cs a := by
  constructor
  · rintro ⟨b, hfirst⟩
    exact ⟨mem_of_first? hfirst, longest_of_first? hfirst⟩
  · rintro ⟨ha, hlongest⟩
    have hsome : first? cs ≠ none := fun hnone =>
      first?_eq_none_iff.1 hnone a hlongest.mem hlongest.isHead
    obtain ⟨⟨q, a', b⟩, hfirst⟩ := Option.ne_none_iff_exists'.1 hsome
    obtain rfl := (longest_of_first? hfirst).unique hlongest
    obtain rfl := eq_of_mem ha (mem_of_first? hfirst)
    exact ⟨b, hfirst⟩

/-! ### The kinds of lexemes -/

/-- The texts of a kind are lexemes of a pattern that makes tokens of this kind of them. -/
theorem exists_token? {kind : Kind} (h : a ∈ kind.language) :
    ∃ p value, a ∈ language p ∧ p.token? a = some (kind, value) := by
  cases kind with
  | illegal | eof => exact h.elim
  | identifier =>
    have hname : Keyword.ofText? (String.ofList a) = none :=
      Option.eq_none_iff_forall_ne_some.2 fun w hw =>
        h.2 w (by rw [Keyword.eq_of_ofText? hw, String.toList_ofList])
    exact ⟨.word, _, h.1, by rw [token?, Kind.ofWord, hname]⟩
  | integer => exact ⟨.number, _, h, rfl⟩
  | string => exact ⟨.quoted, _, h, rfl⟩
  | mark m => exact ⟨.mark m, _, h, rfl⟩
  | keyword w =>
    obtain rfl := mem_singleton_iff.1 h
    refine ⟨.word, w.text, mem_mul_kstar_iff.2 w.isRun_text, ?_⟩
    rw [token?, Kind.ofWord, String.ofList_toList, Keyword.ofText?_text]

/-- **The kind of a lexeme is the one kind that its text is of,** and no text is of a kind if the
lexeme is no token. -/
theorem exists_token?_iff {kind : Kind} (ha : a ∈ p.language) :
    (∃ value, p.token? a = some (kind, value)) ↔ a ∈ kind.language := by
  constructor
  · rintro ⟨value, ht⟩
    cases p with
    | blanks | comment => cases ht
    | number | quoted | mark =>
      cases ht
      exact ha
    | word =>
      cases ht
      rw [Kind.ofWord]
      cases hword : Keyword.ofText? (String.ofList a) with
      | some w =>
        refine mem_singleton_iff.2 ?_
        rw [Keyword.eq_of_ofText? hword, String.toList_ofList]
      | none =>
        refine ⟨ha, fun w hw => ?_⟩
        rw [hw, String.ofList_toList, Keyword.ofText?_text] at hword
        cases hword
  · intro h
    obtain ⟨q, value, hq, ht⟩ := exists_token? h
    obtain rfl := eq_of_mem ha hq
    exact ⟨value, ht⟩

/-- Only strings begin with a quote. -/
theorem eq_quoted_of_starts (h : p.starts '"') : p = .quoted := by
  cases p with
  | quoted => rfl
  | word | number | blanks | comment => exact absurd h (by decide)
  | mark m => cases m <;> exact absurd h (by decide)

/-- A quote begins a lexeme if and only if a string ends somewhere after it. -/
theorem quote_lexeme_iff : (∃ a ∈ lexemes, a <+: '"' :: cs) ↔
    ∃ body ∈ quotedUnit∗, ∃ rest, cs = body ++ '"' :: rest := by
  constructor
  · rintro ⟨a, ⟨p, hp, ha⟩, rest, hrest⟩
    obtain ⟨c, tail, rfl, hc⟩ := exists_of_mem ha
    obtain ⟨rfl, rfl⟩ := List.cons.inj hrest
    obtain rfl := eq_quoted_of_starts hc
    obtain ⟨body, hbody, hquoted⟩ := mem_quoted_iff.1 ha
    obtain ⟨-, rfl⟩ := List.cons.inj hquoted
    exact ⟨body, hbody, rest, List.append_assoc ..⟩
  · rintro ⟨body, hbody, rest, rfl⟩
    refine ⟨_, ⟨.quoted, mem_table _, mem_quoted_iff.2 ⟨body, hbody, rfl⟩⟩, rest, ?_⟩
    simp

end Pattern

namespace Lexer

/-- The next `n` bytes of the text. -/
def spanNext (l : Lexer) (n : Nat) : Span := .ofBytes l.file l.pos (l.pos + n)

/-- What is handed out where the lexeme `a` of a pattern is next: its token, or what comes after it
if it is no token. -/
def accept (l : Lexer) (p : Pattern) (a : List Char) : Option (Token × Lexer) :=
  match p.token? a with
  | some (kind, value) =>
    some (⟨kind, value, l.spanNext (Text.byteLength a)⟩, l.advance (Text.byteLength a))
  | none => (l.advance (Text.byteLength a)).next

/-- The token of a character that begins no lexeme, and the place after it. -/
def illegal (l : Lexer) (ch : Char) : Token × Lexer :=
  (⟨.illegal, String.singleton ch, l.spanNext ch.utf8Size⟩, l.advance ch.utf8Size)

namespace Holds

variable {l : Lexer} {c : Cursor} {p : Pattern} {a b : List Char} {ch : Char} {tail : List Char}

/-- Past a piece of the text, lexer and cursor are still at one place. -/
theorem past (h : l.Holds c) (hc : c.rest = a ++ b) :
    (l.advance (Text.byteLength a)).Holds (c.past a b) where
  file := h.file
  pos := congrArg (· + Text.byteLength a) h.pos
  text := by
    obtain ⟨before, htext, hbefore⟩ := h.text
    refine ⟨before ++ a, ?_, by rw [Text.byteLength_append, hbefore]; rfl⟩
    rw [List.append_assoc]
    exact htext.trans (congrArg (before ++ ·) hc)

/-- They give the piece the same span. -/
theorem spanTo_past (h : l.Holds c) :
    c.spanTo (c.past a b) = l.spanNext (Text.byteLength a) := by
  rw [Cursor.spanTo_past, ← h.file, ← h.pos]
  rfl

/-- The lexer finds the place past the piece. -/
theorem seek_past (h : l.Holds c) : l.seek (c.past a b).pos = l.advance (Text.byteLength a) :=
  congrArg l.seek (congrArg (· + Text.byteLength a) h.pos.symm)

/-- A lexer takes what the first match takes. -/
theorem next_of_first? (h : l.Holds c) (hfirst : Pattern.first? c.rest = some (p, a, b)) :
    l.next = l.accept p a := by
  have hpast := h.past (Pattern.split_eq_some (Pattern.first?_eq_some hfirst)).1
  rw [h.next.1, Cursor.next_of_first? hfirst, accept]
  cases p.token? a with
  | some t =>
    simp only [h.spanTo_past, h.seek_past]
  | none => exact hpast.next.1.symm

/-- Where nothing matches, a lexer hands out one character as illegal. -/
theorem next_of_none (h : l.Holds c) (hc : c.rest = ch :: tail)
    (hfirst : Pattern.first? c.rest = none) : l.next = some (l.illegal ch) := by
  rw [h.next.1, Cursor.next_of_none hc hfirst, h.spanTo_past, h.seek_past]
  rfl

/-- **A character is handed out as illegal** where it begins no lexeme, and only there. -/
theorem next_eq_illegal_iff (h : l.Holds c) (hc : c.rest = ch :: tail) :
    l.next = some (l.illegal ch) ↔ Pattern.first? c.rest = none := by
  refine ⟨fun hnext => ?_, h.next_of_none hc⟩
  by_contra hfirst
  obtain ⟨⟨p, a, b⟩, hfirst⟩ := Option.ne_none_iff_exists'.1 hfirst
  obtain ⟨hsplit, hne⟩ := Pattern.split_eq_some (Pattern.first?_eq_some hfirst)
  rw [h.next_of_first? hfirst, accept] at hnext
  cases ht : p.token? a with
  | some t =>
    rw [ht] at hnext
    exact (Cursor.kind_of_token? ht).2 (congrArg (·.1.kind) (Option.some.inj hnext))
  | none =>
    -- what comes after a blank or a comment is further on than one character
    rw [ht] at hnext
    have hpast := h.past hsplit
    rw [hpast.next.1] at hnext
    have hnext := Option.some.inj hnext
    have hkind : (c.past a b).next.1.kind = .illegal := congrArg (·.1.kind) hnext
    have hpos : (c.past a b).next.2.pos = l.pos + ch.utf8Size := congrArg (·.2.pos) hnext
    have hlater : (c.past a b).pos < (c.past a b).next.2.pos :=
      Cursor.pos_lt_next (by rw [hkind]; decide)
    obtain ⟨d, a, rfl⟩ := List.exists_cons_of_ne_nil hne
    obtain ⟨rfl, -⟩ := List.cons.inj (hc.symm.trans hsplit)
    have hstart : (c.past (ch :: a) b).pos = l.pos + (ch.utf8Size + Text.byteLength a) :=
      hpast.pos.symm
    omega

end Holds

open Computability in
/-- **The first match is the longest match,** wherever a lexer stands before a character.

* What the pattern that decides takes is the longest head of the text that is in the language of any
  pattern, and it is in the language of this one.
* The lexer goes past it, and the token, if there is one, has the only kind that this text is of.
* The character is handed out as illegal if and only if no head of the text is a lexeme.
* For a quote this is so if and only if no quote after it closes it. -/
theorem next_longest (before : List Char) (ch : Char) (tail : List Char) (file : String) :
    let l : Lexer := ⟨before ++ ch :: tail, Text.byteLength before, file⟩
    (∀ p a b, Pattern.first? (ch :: tail) = some (p, a, b) ↔
      ch :: tail = a ++ b ∧ a ≠ [] ∧ p ∈ Pattern.table ∧ a ∈ p.language ∧
        Pattern.Longest Pattern.lexemes (ch :: tail) a) ∧
    (∀ p a b, Pattern.first? (ch :: tail) = some (p, a, b) → l.next = l.accept p a ∧
      ∀ kind, (∃ value, p.token? a = some (kind, value)) ↔ a ∈ kind.language) ∧
    (l.next = some (l.illegal ch) ↔ ∀ a ∈ Pattern.lexemes, a ≠ [] → ¬a <+: ch :: tail) ∧
    (ch = '"' → (l.next = some (l.illegal ch) ↔
      ¬∃ body ∈ Pattern.quotedUnit∗, ∃ rest, tail = body ++ '"' :: rest)) := by
  intro l
  have hholds : l.Holds ⟨ch :: tail, Text.byteLength before, file⟩ := ⟨rfl, rfl, before, rfl, rfl⟩
  have hillegal : l.next = some (l.illegal ch) ↔ ∀ a ∈ Pattern.lexemes, ¬a <+: ch :: tail :=
    (hholds.next_eq_illegal_iff rfl).trans Pattern.first?_eq_none_iff
  have hsplit : ∀ {p a b}, Pattern.first? (ch :: tail) = some (p, a, b) →
      ch :: tail = a ++ b ∧ a ≠ [] := fun hfirst =>
    Pattern.split_eq_some (Pattern.first?_eq_some hfirst)
  refine ⟨fun p a b => ⟨fun hfirst => ?_, ?_⟩, fun p a b hfirst => ?_, ?_, ?_⟩
  · obtain ⟨ha, hlongest⟩ := Pattern.first?_eq_some_iff.1 ⟨b, hfirst⟩
    exact ⟨(hsplit hfirst).1, (hsplit hfirst).2, p.mem_table, ha, hlongest⟩
  · rintro ⟨hhead, -, -, ha, hlongest⟩
    obtain ⟨b', hfirst⟩ := Pattern.first?_eq_some_iff.2 ⟨ha, hlongest⟩
    obtain rfl := List.append_cancel_left (hhead.symm.trans (hsplit hfirst).1)
    exact hfirst
  · exact ⟨hholds.next_of_first? hfirst,
      fun kind => Pattern.exists_token?_iff (Pattern.mem_of_first? hfirst)⟩
  · exact hillegal.trans <| forall₂_congr fun a ha =>
      ⟨fun h _ => h, fun h => h (Pattern.ne_nil_of_mem_lexemes ha)⟩
  · rintro rfl
    rw [hillegal, ← Pattern.quote_lexeme_iff]
    exact ⟨fun h ⟨a, ha, hhead⟩ => h a ha hhead, fun h a ha hhead => h ⟨a, ha, hhead⟩⟩

open Computability in
/-- A quote is not closed by one on the next line, with a backslash at the end of its own. -/
theorem next_longest_unclosed :
    Lexer.next ⟨['"', '\\', '\n', '"'], 0, "shell"⟩ =
      some (Lexer.illegal ⟨['"', '\\', '\n', '"'], 0, "shell"⟩ '"') ∧
    ¬∃ body ∈ Pattern.quotedUnit∗, ∃ rest, ['\\', '\n', '"'] = body ++ '"' :: rest := by
  have hnext : Lexer.next ⟨['"', '\\', '\n', '"'], 0, "shell"⟩ =
      some (Lexer.illegal ⟨['"', '\\', '\n', '"'], 0, "shell"⟩ '"') := by decide +kernel
  exact ⟨hnext, ((next_longest [] '"' ['\\', '\n', '"'] "shell").2.2.2 rfl).1 hnext⟩

end Lexer
end MonkeySyntax
