/-
# Every byte of a text is accounted for

The tokens of a text stand in it one after the other, each at the bytes that its span gives.  What
is between them is skipped, and it is nothing but layout:

| where | what |
| --- | --- |
| before a token or the end | blanks, comments up to a line feed or the end of the text |
| the span of a string | a quote, what the value is the unescaped form of, a quote |
| the span of another token | the value of the token |
| the span of the end of the input | nothing, at the end of the text |

`Tiles` says this of the tokens from one place of a text on, with a case for a token and a case
for the end of the input; a cursor keeps to it (`Cursor.tiles_tokens`).  Offsets are 32-bit
words, so it takes a text of less than 4 GiB for them to be the places that are meant.
-/

import Mathlib.Data.List.Chain
import MonkeySyntax.Proofs.Languages

namespace MonkeySyntax

open Text (byteLength)

/-- The text between two tokens, where `rest` follows: blanks and comments, each of which runs to a
line feed or to the end of the text. -/
inductive Gap (rest : List Char) : List Char → Prop where
  | nil : Gap rest []
  | blank {c : Char} {g : List Char} : Text.isBlank c → Gap rest g → Gap rest (c :: g)
  | comment {body g : List Char} : (∀ c ∈ body, c ≠ '\n') → (∀ c ∈ (g ++ rest).head?, c = '\n') →
      Gap rest g → Gap rest ('/' :: '/' :: (body ++ g))

namespace Token

/-- The text `s` is what the token was read from. -/
def Denotes (t : Token) (s : List Char) : Prop :=
  if t.kind = .string then
    ∃ raw, s = '"' :: (raw ++ ['"']) ∧ t.value = String.ofList (Escape.unescape raw)
  else t.value = String.ofList s

/-- The byte at which a token begins. -/
def beginsAt (t : Token) : Nat := t.span.start.offset.toNat

/-- The byte before which a token ends. -/
def endsAt (t : Token) : Nat := t.span.stop.offset.toNat

end Token

/-- The tokens account for the rest of a text called `file`, which begins at the byte `n`. -/
inductive Tiles (file : String) : Nat → List Char → List Token → Prop where
  | last {n : Nat} {g : List Char} : Gap [] g →
      Tiles file n g [.eof (.ofBytes file (n + byteLength g) (n + byteLength g))]
  | token {n : Nat} {g s rest : List Char} {t : Token} {ts : List Token} : Gap (s ++ rest) g →
      s ≠ [] → t.kind ≠ .eof → t.Denotes s →
      t.span = .ofBytes file (n + byteLength g) (n + byteLength g + byteLength s) →
      Tiles file (n + byteLength g + byteLength s) rest ts →
      Tiles file n (g ++ (s ++ rest)) (t :: ts)

namespace Gap

variable {rest g a : List Char}

/-- Blanks before a gap are part of it. -/
theorem blanks (ha : ∀ c ∈ a, Text.isBlank c) (h : Gap rest g) : Gap rest (a ++ g) := by
  induction a with
  | nil => exact h
  | cons c a ih =>
    obtain ⟨hc, ha⟩ := List.forall_mem_cons.1 ha
    exact blank hc (ih ha)

/-- **What is skipped is layout.** -/
theorem skipped {p : Pattern} {cs : List Char} (hg : Gap rest g)
    (h : Pattern.first? cs = some (p, a, g ++ rest)) (ht : p.token? a = none) :
    Gap rest (a ++ g) := by
  have hsplit := Pattern.first?_eq_some h
  cases p with
  | word | number | quoted | mark => cases ht
  | blanks =>
    obtain ⟨c, tail, rfl, hc, htail⟩ := Pattern.isRun_of_run hsplit
    exact hg.blanks (List.forall_mem_cons.2 ⟨hc, htail⟩)
  | comment =>
    obtain ⟨tail, rfl⟩ := Pattern.starts_of_split_comment hsplit
    obtain ⟨rfl, hrest⟩ := Prod.mk.inj (Option.some.inj hsplit)
    have hstop := List.head?_dropWhile_not (· ≠ '\n') tail
    rw [hrest] at hstop
    refine hg.comment (fun c hc => ?_) fun c hc => ?_
    · simpa using List.all_eq_true.1 List.all_takeWhile c hc
    · rw [Option.mem_def.1 hc] at hstop
      simpa using hstop

end Gap

/-- The token of a lexeme says what its text is. -/
theorem Token.denotes_of_token? {p : Pattern} {a : List Char} {t : Token} (ha : a ∈ p.language)
    (h : p.token? a = some (t.kind, t.value)) : t.Denotes a := by
  obtain ⟨kind, value, span⟩ := t
  cases p with
  | blanks | comment => cases h
  | word =>
    cases h
    have hkind : Kind.ofWord (String.ofList a) ≠ .string := by
      rw [Kind.ofWord]
      split <;> simp
    exact (if_neg hkind).mpr rfl
  | number =>
    cases h
    exact rfl
  | quoted =>
    obtain ⟨rfl, rfl⟩ := Prod.mk.inj (Option.some.inj h)
    obtain ⟨raw, -, rfl⟩ := Pattern.mem_quoted_iff.1 ha
    have hraw : ('"' :: (raw ++ ['"'])).tail.dropLast = raw := List.dropLast_concat
    exact ⟨raw, rfl, congrArg (fun cs => String.ofList (Escape.unescape cs)) hraw⟩
  | mark m =>
    cases h
    obtain rfl := Pattern.mem_singleton_iff.1 ha
    exact String.ofList_toList.symm

namespace Cursor

/-- **What a cursor reads:** it skips `g`, reads the token `t` from `s` and is at `d` then. -/
structure Reads (c : Cursor) (g s : List Char) (t : Token) (d : Cursor) : Prop where
  text : c.rest = g ++ (s ++ d.rest)
  gap : Gap (s ++ d.rest) g
  file : d.file = c.file
  pos : d.pos = c.pos + byteLength g + byteLength s
  span : t.span = .ofBytes c.file (c.pos + byteLength g) d.pos
  what : t = .eof t.span ∧ s = [] ∧ d.rest = [] ∨ t.kind ≠ .eof ∧ s ≠ [] ∧ t.Denotes s

/-- A lexeme that is no token is skipped with what is skipped after it. -/
theorem Reads.skip {c d : Cursor} {p : Pattern} {a b g s : List Char} {t : Token}
    (hfirst : Pattern.first? c.rest = some (p, a, b)) (ht : p.token? a = none)
    (h : (c.past a b).Reads g s t d) : c.Reads (a ++ g) s t d := by
  have hsplit := (Pattern.split_eq_some (Pattern.first?_eq_some hfirst)).1
  have hb : b = g ++ (s ++ d.rest) := h.text
  have hpos : (c.past a b).pos + byteLength g = c.pos + byteLength (a ++ g) := by
    rw [Text.byteLength_append, ← Nat.add_assoc]
    rfl
  refine ⟨by rw [hsplit, hb, List.append_assoc], h.gap.skipped (hb ▸ hfirst) ht, h.file, ?_, ?_,
    h.what⟩
  · rw [h.pos, hpos]
  · rw [h.span, hpos]
    rfl

/-- A cursor always reads something: a token after a gap, or the end after the last gap. -/
theorem exists_reads (c : Cursor) : ∃ g s, c.Reads g s c.next.1 c.next.2 := by
  fun_induction next c with
  | case1 c hr => exact ⟨[], [], rfl, .nil, rfl, rfl, rfl, .inl ⟨rfl, rfl, hr⟩⟩
  | case2 c ch tail hr hf d =>
    exact ⟨[], [ch], hr, .nil, rfl, rfl, rfl, .inr ⟨by simp, by simp, rfl⟩⟩
  | case3 c ch tail hr p lexeme rest hf d kind value ht =>
    obtain ⟨hsplit, hne⟩ := Pattern.split_eq_some (Pattern.first?_eq_some hf)
    have hdenotes : Token.Denotes ⟨kind, value, c.spanTo d⟩ lexeme :=
      Token.denotes_of_token? (Pattern.mem_of_first? hf) ht
    exact ⟨[], lexeme, hsplit, .nil, rfl, rfl, rfl, .inr ⟨(kind_of_token? ht).1, hne, hdenotes⟩⟩
  | case4 c ch tail hr p lexeme rest hf d ht ih =>
    obtain ⟨g, s, h⟩ := ih
    exact ⟨lexeme ++ g, s, h.skip hf ht⟩

/-- **The tokens of a text account for it.** -/
theorem tiles_tokens (c : Cursor) : Tiles c.file c.pos c.rest c.tokens := by
  fun_induction tokens c with
  | case1 c heof =>
    obtain ⟨g, s, h⟩ := c.exists_reads
    obtain ⟨ht, rfl, hd⟩ | ⟨hne, -⟩ := h.what
    · have hrest : c.rest = g := by rw [h.text, hd, List.append_nil, List.append_nil]
      have hpos : c.next.2.pos = c.pos + byteLength g := h.pos
      have hgap : Gap [] g := hd ▸ h.gap
      rw [ht, h.span, hpos, hrest]
      exact .last hgap
    · exact absurd heof hne
  | case2 c hne ih =>
    obtain ⟨g, s, h⟩ := c.exists_reads
    obtain ⟨ht, -⟩ | ⟨-, hs, hdenotes⟩ := h.what
    · exact absurd (congrArg Token.kind ht) hne
    · rw [h.text]
      rw [h.file, h.pos] at ih
      exact .token h.gap hs hne hdenotes (h.pos ▸ h.span) ih

end Cursor

/-! ### Where tokens stand -/

namespace Token

/-- The token `t` stands after the texts `a` and `g`, of which the second is skipped, is read from
`s`, and leaves `b`. -/
structure Stands (t : Token) (file : String) (a g s b : List Char) : Prop where
  gap : Gap (s ++ b) g
  begins : t.beginsAt = byteLength (a ++ g)
  ends : t.endsAt = byteLength (a ++ (g ++ s))
  named : t.span.start.file = file ∧ t.span.stop.file = file
  what : t.kind = .eof ∧ s = [] ∧ b = [] ∨ t.kind ≠ .eof ∧ s ≠ [] ∧ t.Denotes s

variable {t : Token} {file : String} {m n : Nat} {a g s b : List Char}

/-- The byte in a span is the one that is meant, if it fits a word. -/
theorem beginsAt_of_span (h : t.span = .ofBytes file m n) (hm : m < 2 ^ 32) : t.beginsAt = m := by
  rw [beginsAt, h]
  exact UInt32.toNat_ofNat_of_lt' hm

/-- So is the byte at its end. -/
theorem endsAt_of_span (h : t.span = .ofBytes file m n) (hn : n < 2 ^ 32) : t.endsAt = n := by
  rw [endsAt, h]
  exact UInt32.toNat_ofNat_of_lt' hn

/-- A token stands where its span says, in a text that is not too long. -/
theorem stands_of_span (hbound : byteLength (a ++ (g ++ (s ++ b))) < 2 ^ 32)
    (hgap : Gap (s ++ b) g)
    (hspan : t.span = .ofBytes file (byteLength a + byteLength g)
      (byteLength a + byteLength g + byteLength s))
    (hwhat : t.kind = .eof ∧ s = [] ∧ b = [] ∨ t.kind ≠ .eof ∧ s ≠ [] ∧ t.Denotes s) :
    t.Stands file a g s b := by
  simp only [Text.byteLength_append] at hbound
  have hnamed : t.span.start.file = file ∧ t.span.stop.file = file := by
    rw [hspan]
    exact ⟨rfl, rfl⟩
  refine ⟨hgap, ?_, ?_, hnamed, hwhat⟩
  · rw [beginsAt_of_span hspan (by omega), Text.byteLength_append]
  · rw [endsAt_of_span hspan (by omega)]
    simp only [Text.byteLength_append, Nat.add_assoc]

/-- A token of the input has a byte, and says what its text is. -/
theorem Stands.of_ne_eof (h : t.Stands file a g s b) (ht : t.kind ≠ .eof) :
    t.beginsAt < t.endsAt ∧ t.Denotes s := by
  obtain ⟨heof, -⟩ | ⟨-, hs, hdenotes⟩ := h.what
  · exact absurd heof ht
  · have hlength := Text.byteLength_pos hs
    refine ⟨?_, hdenotes⟩
    rw [h.begins, h.ends]
    simp only [Text.byteLength_append]
    omega

/-- The end of the input stands at the end of the text. -/
theorem Stands.of_eof (h : t.Stands file a g s b) (ht : t.kind = .eof) :
    t.beginsAt = byteLength (a ++ (g ++ (s ++ b))) ∧
      t.endsAt = byteLength (a ++ (g ++ (s ++ b))) := by
  obtain ⟨-, rfl, rfl⟩ | ⟨hne, -⟩ := h.what
  · exact ⟨by simp [h.begins], by simp [h.ends]⟩
  · exact absurd ht hne

end Token

/-- Every token of `ts` stands somewhere in a text, after the end of the one before it or, if it is
the first, after the first `n` bytes. -/
def Placed (file : String) (n : Nat) (text : List Char) (ts : List Token) : Prop :=
  ∀ pre t post, ts = pre ++ t :: post → ∃ a g s b, text = a ++ (g ++ (s ++ b)) ∧
    byteLength a = (pre.map Token.endsAt).getLastD n ∧ t.Stands file a g s b

/-- **Every token stands where it is accounted for.** -/
theorem Tiles.placed {file : String} {n : Nat} {cs : List Char} {ts : List Token}
    (h : Tiles file n cs ts) (before : List Char) (hbound : byteLength (before ++ cs) < 2 ^ 32)
    (hbefore : byteLength before = n) : Placed file n (before ++ cs) ts := by
  induction h generalizing before with
  | @last n g hgap =>
    subst hbefore
    intro pre t post hts
    obtain ⟨rfl, heq⟩ | ⟨pre, rfl, heq⟩ := List.cons_eq_append_iff.1 hts
    · obtain ⟨rfl, rfl⟩ := List.cons.inj heq
      have htext : before ++ g = before ++ (g ++ ([] ++ [])) := by simp
      exact ⟨before, g, [], [], htext, rfl,
        Token.stands_of_span (htext ▸ hbound) hgap rfl (.inl ⟨rfl, rfl, rfl⟩)⟩
    · cases (List.append_eq_nil_iff.1 heq.symm).2
  | @token n g s rest u ts hgap hs hkind hdenotes hspan _ ih =>
    subst hbefore
    intro pre t post hts
    obtain ⟨rfl, heq⟩ | ⟨pre, rfl, heq⟩ := List.cons_eq_append_iff.1 hts
    · obtain ⟨rfl, rfl⟩ := List.cons.inj heq
      exact ⟨before, g, s, rest, rfl, rfl,
        Token.stands_of_span hbound hgap hspan (.inr ⟨hkind, hs, hdenotes⟩)⟩
    · have htext : before ++ (g ++ (s ++ rest)) = before ++ (g ++ s) ++ rest := by simp
      have hlength : byteLength (before ++ (g ++ s)) =
          byteLength before + byteLength g + byteLength s := by
        simp only [Text.byteLength_append, Nat.add_assoc]
      have hends : u.endsAt = byteLength before + byteLength g + byteLength s := by
        refine Token.endsAt_of_span hspan ?_
        simp only [Text.byteLength_append] at hbound
        omega
      obtain ⟨a, g', s', b, hsplit, ha, hstands⟩ :=
        ih (before ++ (g ++ s)) (htext ▸ hbound) hlength pre t post heq
      refine ⟨a, g', s', b, htext.trans hsplit, ?_, hstands⟩
      rw [ha, List.map_cons, List.getLastD_cons, hends]

/-- The tokens `body` and the end of the input, `last`, cover a text: each is read from the bytes of
its span, and there is nothing but layout between them. -/
structure Covers (text : List Char) (file : String) (body : List Token) (last : Token) : Prop where
  /-- The span of a token is not empty and begins and ends between two characters. -/
  tokens : ∀ t ∈ body, t.kind ≠ .eof ∧ t.beginsAt < t.endsAt ∧ ∃ a s b, text = a ++ (s ++ b) ∧
    byteLength a = t.beginsAt ∧ byteLength (a ++ s) = t.endsAt ∧ t.Denotes s
  ordered : (body ++ [last]).IsChain fun t u => t.endsAt ≤ u.beginsAt
  /-- A gap goes from the end of the tokens `pre`, or the start of the text, to the next token. -/
  gaps : ∀ pre t post, body ++ [last] = pre ++ t :: post → ∃ a g b, text = a ++ (g ++ b) ∧
    byteLength a = (pre.map Token.endsAt).getLastD 0 ∧ byteLength (a ++ g) = t.beginsAt ∧ Gap b g
  ended : last.kind = .eof ∧ last.beginsAt = byteLength text ∧ last.endsAt = byteLength text
  named : ∀ t ∈ body ++ [last], t.span.start.file = file ∧ t.span.stop.file = file

/-- **Tokens that stand in a text up to its end cover it.** -/
theorem Placed.covers {text : List Char} {file : String} {body : List Token} {last : Token}
    (h : Placed file 0 text (body ++ [last])) (hbody : ∀ t ∈ body, t.kind ≠ .eof)
    (hlast : last.kind = .eof) : Covers text file body last := by
  refine ⟨fun t ht => ?_, ?_, fun pre t post hts => ?_, ?_, fun t ht => ?_⟩
  · obtain ⟨pre, post, rfl⟩ := List.append_of_mem ht
    obtain ⟨a, g, s, b, rfl, -, hstands⟩ := h pre t (post ++ [last]) (by simp)
    obtain ⟨hlt, hdenotes⟩ := hstands.of_ne_eof (hbody t ht)
    exact ⟨hbody t ht, hlt, a ++ g, s, b, (List.append_assoc ..).symm, hstands.begins.symm,
      by rw [hstands.ends, List.append_assoc], hdenotes⟩
  · refine List.isChain_iff_forall_rel_of_append_cons_cons.2 fun t u pre post hts => ?_
    obtain ⟨a, g, s, b, -, ha, hstands⟩ := h (pre ++ [t]) u post (by simp [hts])
    rw [List.map_append, List.map_singleton, List.getLastD_concat] at ha
    rw [← ha, hstands.begins, Text.byteLength_append]
    exact Nat.le_add_right ..
  · obtain ⟨a, g, s, b, hsplit, ha, hstands⟩ := h pre t post hts
    exact ⟨a, g, s ++ b, hsplit, ha, hstands.begins.symm, hstands.gap⟩
  · obtain ⟨a, g, s, b, rfl, -, hstands⟩ := h body last [] rfl
    exact ⟨hlast, hstands.of_eof hlast⟩
  · obtain ⟨pre, post, hts⟩ := List.append_of_mem ht
    obtain ⟨a, g, s, b, -, -, hstands⟩ := h pre t post hts
    exact hstands.named

namespace Lexer

/-- A lexer keeps its text when it moves on. -/
theorem text_of_next {l l' : Lexer} {t : Token} (h : l.next = some (t, l')) : l'.text = l.text := by
  obtain ⟨c, -, heq⟩ := Option.map_eq_some_iff.1 h
  cases heq
  rfl

/-- A lexer keeps its text however many tokens are taken. -/
theorem text_of_take {l l' : Lexer} {n : Nat} {ts : List Token} (h : l.take n = some (ts, l')) :
    l'.text = l.text := by
  induction n generalizing l ts with
  | zero =>
    cases h
    rfl
  | succ n ih =>
    obtain ⟨⟨t, m⟩, hnext, htake⟩ := Option.bind_eq_some_iff.1 h
    obtain ⟨⟨us, m'⟩, hrest, heq⟩ := Option.bind_eq_some_iff.1 htake
    cases heq
    exact (ih hrest).trans (text_of_next hnext)

/-- **The tokens of a text of less than 4 GiB cover it,** and the lexer is between two characters
however many tokens it has handed out, so that it can always go on. -/
theorem tokens_cover (text : String) (file : Option String)
    (htext : byteLength text.toList < 2 ^ 32) :
    (∃ body last l, (ofText text file).take (body.length + 1) = some (body ++ [last], l) ∧
      Covers text.toList (file.getD "shell") body last) ∧
    ∀ n, ∃ ts l a b, (ofText text file).take n = some (ts, l) ∧ text.toList = a ++ b ∧
      l.pos = byteLength a ∧ l.remainder = some b := by
  refine ⟨?_, fun n => ?_⟩
  · obtain ⟨body, last, htokens, hlast, hbody, htake⟩ := (Cursor.ofText text file).take_tokens
    obtain ⟨l, hl, -⟩ := (holds_ofText text file).take (body.length + 1)
    have htiles := (Cursor.ofText text file).tiles_tokens
    rw [htokens] at htiles
    rw [htake 1] at hl
    exact ⟨body, last, l, hl, (htiles.placed [] htext rfl).covers hbody hlast⟩
  · obtain ⟨l, hl, hholds⟩ := (holds_ofText text file).take n
    obtain ⟨before, hsplit, hbefore⟩ := hholds.text
    have hpos : l.pos = byteLength before := hholds.pos.trans hbefore.symm
    refine ⟨_, l, before, _, hl, (text_of_take hl).symm.trans hsplit, hpos, ?_⟩
    rw [remainder, hsplit, hpos, Text.dropBytes_byteLength]

/-- A character of two bytes, a blank, and a comment at the end of the text. -/
theorem tokens_cover_accent : byteLength "é // é".toList < 2 ^ 32 ∧
    ∃ body last l, (ofText "é // é" none).take (body.length + 1) = some (body ++ [last], l) ∧
      Covers "é // é".toList "shell" body last :=
  have htext : byteLength "é // é".toList < 2 ^ 32 := by decide
  ⟨htext, (tokens_cover "é // é" none htext).1⟩

end Lexer
end MonkeySyntax
