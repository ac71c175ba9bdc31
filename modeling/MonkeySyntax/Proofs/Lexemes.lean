/-
# Texts whose lexemes are known

`Lexes first follow cs Q` says what a cursor makes of the text `cs` wherever it comes next: as long
as the character after it, if any, is one that `follow` allows, the tokens handed out for it have
the property `Q`.  The text starts with a `first` character, which is what the text before it has to
allow.

| text | starts with | may come before |
| --- | --- | --- |
| a name, a keyword | a letter or `_` | what is no part of a word |
| digits | a digit | what is no digit |
| a mark | its first character | anything but `=` and `/` |

So `!` is not taken for a part of `!=`, nor `/` for that of a comment.
-/

import MonkeySyntax.Proofs.Lexing

namespace MonkeySyntax

/-- A run of `p`-characters that begins with a `start`-character. -/
def Pattern.IsRun (start p : Char → Bool) (cs : List Char) : Prop :=
  ∃ c tail, cs = c :: tail ∧ start c ∧ ∀ d ∈ tail, p d

/-- The value of a token is a text that is read as a token of its kind, if it is the token of a
word, a number or a mark. -/
structure Token.Written (t : Token) : Prop where
  word : t.kind = .identifier ∨ (∃ w, t.kind = .keyword w) →
    Pattern.IsRun isWordStart isWordPart t.value.toList ∧ Kind.ofWord t.value = t.kind
  number : t.kind = .integer → Pattern.IsRun Char.isDigit Char.isDigit t.value.toList
  mark : ∀ m, t.kind = .mark m → t.value = m.text

namespace Mark

/-- The first character of a mark. -/
def initial (m : Mark) : Char := m.text.toList.headD ' '

/-- The text of a mark begins with its first character. -/
theorem exists_text (m : Mark) : ∃ tail, m.text.toList = m.initial :: tail := by
  cases m <;> exact ⟨_, rfl⟩

end Mark

/-- A keyword is read as a word. -/
theorem Keyword.isRun_text (w : Keyword) :
    Pattern.IsRun isWordStart isWordPart w.text.toList := by
  cases w <;> exact ⟨_, _, rfl, rfl, List.all_eq_true.1 rfl⟩

namespace Pattern

variable {start p : Char → Bool} {cs a b rest : List Char}

/-- What is taken as a run is one. -/
theorem isRun_of_run (h : run start p cs = some (a, b)) : IsRun start p a := by
  cases cs with
  | nil => cases h
  | cons c cs =>
    rw [run] at h
    split at h
    · rename_i hc
      cases h
      exact ⟨c, _, rfl, hc, List.all_eq_true.1 List.all_takeWhile⟩
    · cases h

/-- **A run ends** where a character comes that is no part of it. -/
theorem run_append (h : IsRun start p cs) (hrest : ∀ c ∈ rest.head?, p c = false) :
    run start p (cs ++ rest) = some (cs, rest) := by
  obtain ⟨c, tail, rfl, hc, htail⟩ := h
  have hstop : rest.takeWhile p = [] ∧ rest.dropWhile p = rest := by
    cases rest with
    | nil => exact ⟨rfl, rfl⟩
    | cons d rest => simp [hrest d rfl]
  rw [List.cons_append, run, if_pos hc, List.takeWhile_append_of_pos htail,
    List.dropWhile_append_of_pos htail, hstop.1, hstop.2, List.append_nil]

/-- No run begins with another character. -/
theorem run_eq_none {c : Char} (hc : start c = false) : run start p (c :: cs) = none := by
  rw [run, if_neg (by simp [hc])]

/-! The codes of letters and digits. -/

/-- Letters are those of ASCII. -/
theorem isAlpha_iff (c : Char) : c.isAlpha ↔
    65 ≤ c.toNat ∧ c.toNat ≤ 90 ∨ 97 ≤ c.toNat ∧ c.toNat ≤ 122 :=
  have hupper : c.isUpper ↔ 'A'.val ≤ c.val ∧ c.val ≤ 'Z'.val := decide_eq_true_iff
  have hlower : c.isLower ↔ 'a'.val ≤ c.val ∧ c.val ≤ 'z'.val :=
    (Bool.and_eq_true_iff ..).trans (and_congr decide_eq_true_iff decide_eq_true_iff)
  (Bool.or_eq_true_iff ..).trans (or_congr hupper hlower)

/-- Digits are those of ASCII. -/
theorem isDigit_iff (c : Char) : c.isDigit ↔ 48 ≤ c.toNat ∧ c.toNat ≤ 57 :=
  (Bool.and_eq_true_iff ..).trans (and_congr decide_eq_true_iff decide_eq_true_iff)

/-- The characters of words are between `0` and `z`. -/
theorem toNat_of_isWordPart {c : Char} (h : isWordPart c) : 48 ≤ c.toNat ∧ c.toNat ≤ 122 := by
  simp only [isWordPart, Char.isAlphanum, Bool.or_eq_true, isAlpha_iff, isDigit_iff,
    decide_eq_true_eq] at h
  rcases h with (hletter | hdigit) | rfl
  · omega
  · omega
  · decide

/-- No word begins with a digit. -/
theorem not_isWordStart {c : Char} (h : c.isDigit) : isWordStart c = false := by
  have hunder : c ≠ '_' := by
    rintro rfl
    revert h
    decide
  have hletter : ¬c.isAlpha := by
    rw [isAlpha_iff]
    rw [isDigit_iff] at h
    omega
  simp [isWordStart, hletter, hunder]

/-- A word is taken up to a character that is not part of one. -/
theorem first?_word (h : IsRun isWordStart isWordPart cs)
    (hrest : ∀ c ∈ rest.head?, isWordPart c = false) :
    first? (cs ++ rest) = some (.word, cs, rest) := by
  rw [first?, table, List.findSome?_cons, split, run_append h hrest]
  rfl

/-- A number is taken up to a character that is no digit. -/
theorem first?_number (h : IsRun Char.isDigit Char.isDigit cs)
    (hrest : ∀ c ∈ rest.head?, c.isDigit = false) :
    first? (cs ++ rest) = some (.number, cs, rest) := by
  have hword : split .word (cs ++ rest) = none := by
    obtain ⟨c, tail, rfl, hc, -⟩ := h
    exact run_eq_none (not_isWordStart hc)
  rw [first?, table, List.findSome?_cons, hword, Option.map_none, List.findSome?_cons, split,
    run_append h hrest]
  rfl

/-- A single space is taken before a character that is no blank. -/
theorem first?_space (hrest : ∀ c ∈ rest.head?, Text.isBlank c = false) :
    first? (' ' :: rest) = some (.blanks, [' '], rest) := by
  have hblank : IsRun Text.isBlank Text.isBlank [' '] := ⟨' ', [], rfl, by decide, by simp⟩
  have hword : run isWordStart isWordPart (' ' :: rest) = none := run_eq_none (by decide)
  have hnumber : run Char.isDigit Char.isDigit (' ' :: rest) = none := run_eq_none (by decide)
  have hsplit : split .blanks (' ' :: rest) = some ([' '], rest) := run_append hblank hrest
  rw [first?, table, List.findSome?_cons, split, hword, Option.map_none, List.findSome?_cons, split,
    hnumber, Option.map_none, List.findSome?_cons, hsplit]
  rfl

/-- A mark is taken whole, if neither `=` nor `/` follows. -/
theorem first?_mark (m : Mark) (hrest : ∀ c ∈ rest.head?, c ≠ '=' ∧ c ≠ '/') :
    first? (m.text.toList ++ rest) = some (.mark m, m.text.toList, rest) := by
  cases rest with
  | nil => cases m <;> decide
  | cons d rest =>
    obtain ⟨heq, hslash⟩ := hrest d rfl
    cases m <;>
      simp +decide [first?, table, List.findSome?, split, run, Mark.text, heq.symm, hslash]

end Pattern

namespace Cursor

/-! ### What is handed out -/

/-- A cursor at `c` hands out the tokens `ts` and is at `d` then. -/
def Hands (c : Cursor) (ts : List Token) (d : Cursor) : Prop :=
  TokenSource.take ts.length c = (ts, d)

section

variable {c d e : Cursor} {t : Token} {ts us : List Token}

/-- A cursor that hands out nothing stays. -/
theorem hands_nil_iff : c.Hands [] d ↔ c = d := by simp [Hands, TokenSource.take]

/-- Tokens are handed out one after the other. -/
theorem hands_cons_iff : c.Hands (t :: ts) d ↔ c.next.1 = t ∧ c.next.2.Hands ts d := by
  have htake : TokenSource.take (t :: ts).length c =
      (c.next.1 :: (TokenSource.take ts.length c.next.2).1,
        (TokenSource.take ts.length c.next.2).2) := rfl
  rw [Hands, htake, Prod.mk.injEq, List.cons.injEq, and_assoc, Hands, Prod.ext_iff]

/-- Tokens and then more tokens are handed out in a row. -/
theorem Hands.append (h : c.Hands ts d) (k : d.Hands us e) : c.Hands (ts ++ us) e := by
  induction ts generalizing c with
  | nil =>
    obtain rfl := hands_nil_iff.1 h
    exact k
  | cons t ts ih =>
    obtain ⟨ht, hts⟩ := hands_cons_iff.1 h
    exact hands_cons_iff.2 ⟨ht, ih hts⟩

end

/-- **Every token is written as its kind is.** -/
theorem written_next (c : Cursor) : c.next.1.Written := by
  fun_induction next c with
  | case1 c hr => exact ⟨by simp [Token.eof], by simp [Token.eof], by simp [Token.eof]⟩
  | case2 c ch tail hr hf d => exact ⟨by simp, by simp, by simp⟩
  | case4 c ch tail hr p lexeme rest hf d ht ih => exact ih
  | case3 c ch tail hr p lexeme rest hf d kind value ht =>
    have hsplit := Pattern.first?_eq_some hf
    cases p <;> simp only [Pattern.token?, Option.some.injEq, Prod.mk.injEq, reduceCtorEq] at ht <;>
      obtain ⟨rfl, rfl⟩ := ht
    case word =>
      have hrun : Pattern.IsRun isWordStart isWordPart lexeme := Pattern.isRun_of_run hsplit
      refine ⟨fun _ => ⟨by simpa using hrun, rfl⟩, fun h => ?_, fun m h => ?_⟩ <;>
      · simp only [Kind.ofWord] at h
        split at h <;> cases h
    case number =>
      have hrun : Pattern.IsRun Char.isDigit Char.isDigit lexeme := Pattern.isRun_of_run hsplit
      exact ⟨by simp, by simpa using hrun, by simp⟩
    case quoted => exact ⟨by simp, by simp, by simp⟩
    case mark m => exact ⟨by simp, by simp, by simp⟩

/-! ### Texts and their tokens -/

/-- The text `cs`, which begins with a `first` character, is read as tokens with `Q` before the end
of the text or a character with `follow`. -/
structure Lexes (first follow : Char → Prop) (cs : List Char) (Q : List Token → Prop) : Prop where
  starts : ∃ ch tail, cs = ch :: tail ∧ first ch
  reads (c : Cursor) (rest : List Char) : c.rest = cs ++ rest → (∀ ch ∈ rest.head?, follow ch) →
    ∃ ts d, c.Hands ts d ∧ d.rest = rest ∧ Q ts

/-- A token by itself. -/
def Sole (kind : Kind) (value : String) (ts : List Token) : Prop :=
  ∃ t, t.kind = kind ∧ t.value = value ∧ ts = [t]

/-- Tokens with one property, and then tokens with another. -/
def Then (Q R : List Token → Prop) (ts : List Token) : Prop :=
  ∃ us vs, Q us ∧ R vs ∧ ts = us ++ vs

section

variable {first first' follow follow' : Char → Prop} {cs ds : List Char}
  {Q R : List Token → Prop}

/-- What the text begins with may be said less exactly. -/
theorem Lexes.begins (h : Lexes first follow cs Q) (hfirst : ∀ ch, first ch → first' ch) :
    Lexes first' follow cs Q where
  starts := by
    obtain ⟨ch, tail, hcs, hch⟩ := h.starts
    exact ⟨ch, tail, hcs, hfirst ch hch⟩
  reads := h.reads

/-- It may be asked for less to follow than could. -/
theorem Lexes.ends (h : Lexes first follow cs Q) (hfollow : ∀ ch, follow' ch → follow ch) :
    Lexes first follow' cs Q where
  starts := h.starts
  reads c rest hc hrest := h.reads c rest hc fun ch hch => hfollow ch (hrest ch hch)

/-- What the tokens are may be said less exactly. -/
theorem Lexes.imp (h : Lexes first follow cs Q) (hQ : ∀ ts, Q ts → R ts) :
    Lexes first follow cs R where
  starts := h.starts
  reads c rest hc hrest := by
    obtain ⟨ts, d, hts, hd, hq⟩ := h.reads c rest hc hrest
    exact ⟨ts, d, hts, hd, hQ ts hq⟩

/-- **One text, then another,** which begins with what may come after the first. -/
theorem Lexes.append (h : Lexes first follow cs Q) (k : Lexes follow follow' ds R) :
    Lexes first follow' (cs ++ ds) (Then Q R) where
  starts := by
    obtain ⟨ch, tail, rfl, hch⟩ := h.starts
    exact ⟨ch, tail ++ ds, rfl, hch⟩
  reads c rest hc hrest := by
    obtain ⟨ch, tail, rfl, hch⟩ := k.starts
    rw [List.append_assoc] at hc
    obtain ⟨us, d, hus, hd, hq⟩ := h.reads c (ch :: tail ++ rest) hc <| by
      rintro _ ⟨⟩
      exact hch
    obtain ⟨vs, e, hvs, he, hr⟩ := k.reads d rest hd hrest
    exact ⟨us ++ vs, e, hus.append hvs, he, us, vs, hq, hr, rfl⟩

/-- **A blank before a text** is skipped. -/
theorem Lexes.blank (h : Lexes first follow cs Q)
    (hfirst : ∀ ch, first ch → Text.isBlank ch = false) (hfirst' : first' ' ') :
    Lexes first' follow (' ' :: cs) Q where
  starts := ⟨' ', cs, rfl, hfirst'⟩
  reads c rest hc hrest := by
    obtain ⟨ts, d, hts, hd, hq⟩ := h.reads (c.past [' '] (cs ++ rest)) rest rfl hrest
    obtain ⟨ch, tail, rfl, hch⟩ := h.starts
    have hspace : Pattern.first? c.rest = some (.blanks, [' '], ch :: tail ++ rest) := by
      rw [hc]
      exact Pattern.first?_space (by rintro _ ⟨⟩; exact hfirst ch hch)
    have hskip : c.next = (c.past [' '] (ch :: tail ++ rest)).next := next_of_first? hspace
    refine ⟨ts, d, ?_, hd, hq⟩
    cases ts with
    | nil =>
      -- a text that is not empty is not read as no tokens
      have hsame : ch :: tail ++ rest = rest :=
        (congrArg Cursor.rest (hands_nil_iff.1 hts)).trans hd
      have hlength := congrArg List.length hsame
      simp only [List.length_append, List.length_cons] at hlength
      omega
    | cons t ts =>
      rw [hands_cons_iff, hskip]
      exact hands_cons_iff.1 hts

end

/-! ### Single lexemes -/

/-- A lexeme that is a token is read as that token, where nothing follows that would make it longer.
-/
theorem lexes_sole {first follow : Char → Prop} {p : Pattern} {lexeme : List Char} {kind : Kind}
    {value : String} (hstarts : ∃ ch tail, lexeme = ch :: tail ∧ first ch)
    (ht : p.token? lexeme = some (kind, value))
    (hfirst? : ∀ rest, (∀ ch ∈ List.head? rest, follow ch) →
      Pattern.first? (lexeme ++ rest) = some (p, lexeme, rest)) :
    Lexes first follow lexeme (Sole kind value) where
  starts := hstarts
  reads c rest hc hrest := by
    have hnext : c.next =
        (⟨kind, value, c.spanTo (c.past lexeme rest)⟩, c.past lexeme rest) := by
      rw [next_of_first? (hc ▸ hfirst? rest hrest), ht]
    refine ⟨[⟨kind, value, c.spanTo (c.past lexeme rest)⟩], c.past lexeme rest, ?_, rfl,
      _, rfl, rfl, rfl⟩
    rw [hands_cons_iff, hnext, hands_nil_iff]
    exact ⟨rfl, rfl⟩

/-- A character that is no part of a word or a number. -/
def Apart (ch : Char) : Prop := isWordPart ch = false

/-- A character that makes no longer lexeme of the mark before it. -/
def Unmerged (ch : Char) : Prop := ch ≠ '=' ∧ ch ≠ '/'

/-- A character that may come after a mark, and after a blank too. -/
def Opening (ch : Char) : Prop := Text.isBlank ch = false ∧ Unmerged ch

/-- A character that may come after any lexeme. -/
def Closing (ch : Char) : Prop := Apart ch ∧ Unmerged ch

instance : DecidablePred Apart := fun ch => inferInstanceAs (Decidable (isWordPart ch = false))

instance : DecidablePred Unmerged := fun ch => inferInstanceAs (Decidable (ch ≠ '=' ∧ ch ≠ '/'))

instance : DecidablePred Opening := fun ch =>
  inferInstanceAs (Decidable (Text.isBlank ch = false ∧ Unmerged ch))

instance : DecidablePred Closing := fun ch =>
  inferInstanceAs (Decidable (Apart ch ∧ Unmerged ch))

/-- A character of a word may come after a mark, and after a blank too. -/
theorem opening_of_isWordPart {ch : Char} (h : isWordPart ch) : Opening ch := by
  have hrange := Pattern.toNat_of_isWordPart h
  refine ⟨?_, ?_, ?_⟩
  · simp [Text.isBlank, Text.inRanges, Text.blankRanges]
    omega
  · rintro rfl
    revert h
    decide
  · rintro rfl
    revert h
    decide

/-- What starts a word may be part of one. -/
theorem isWordPart_of_isWordStart {ch : Char} (h : isWordStart ch) : isWordPart ch := by
  simp only [isWordStart, isWordPart, Char.isAlphanum, Bool.or_eq_true] at h ⊢
  exact h.imp_left .inl

/-- A digit may be part of a word. -/
theorem isWordPart_of_isDigit {ch : Char} (h : ch.isDigit) : isWordPart ch := by
  simp [isWordPart, Char.isAlphanum, h]

/-- A name or a keyword, as it is written. -/
theorem lexes_run {s : String} (hrun : Pattern.IsRun isWordStart isWordPart s.toList) :
    Lexes Opening Apart s.toList (Sole (.ofWord s) s) := by
  obtain ⟨c, tail, hcs, hc, -⟩ := id hrun
  have htoken : Pattern.token? .word s.toList = some (.ofWord s, s) := by simp [Pattern.token?]
  exact lexes_sole ⟨c, tail, hcs, opening_of_isWordPart (isWordPart_of_isWordStart hc)⟩ htoken
    fun rest hrest => Pattern.first?_word hrun hrest

/-- Digits, as they are written. -/
theorem lexes_digits {s : String} (hrun : Pattern.IsRun Char.isDigit Char.isDigit s.toList) :
    Lexes Opening Apart s.toList (Sole .integer s) := by
  obtain ⟨c, tail, hcs, hc, -⟩ := id hrun
  have htoken : Pattern.token? .number s.toList = some (.integer, s) := by simp [Pattern.token?]
  refine lexes_sole ⟨c, tail, hcs, opening_of_isWordPart (isWordPart_of_isDigit hc)⟩ htoken
    fun rest hrest => Pattern.first?_number hrun fun ch hch => ?_
  exact Bool.eq_false_iff.2 fun hdigit =>
    Bool.eq_false_iff.1 (hrest ch hch) (isWordPart_of_isDigit hdigit)

/-- A name or a keyword is read as it is written. -/
theorem lexes_word {t : Token} (ht : t.Written)
    (hkind : t.kind = .identifier ∨ ∃ w, t.kind = .keyword w) :
    Lexes Opening Apart t.value.toList (Sole t.kind t.value) := by
  obtain ⟨hrun, hword⟩ := ht.word hkind
  exact hword ▸ lexes_run hrun

/-- A number is read as it is written. -/
theorem lexes_number {t : Token} (ht : t.Written) (hkind : t.kind = .integer) :
    Lexes Opening Apart t.value.toList (Sole t.kind t.value) :=
  hkind ▸ lexes_digits (ht.number hkind)

/-- A mark is read as it is written. -/
theorem lexes_mark {first : Char → Prop} (m : Mark) (hfirst : first m.initial) :
    Lexes first Unmerged m.text.toList (Sole (.mark m) m.text) := by
  obtain ⟨tail, htext⟩ := m.exists_text
  exact lexes_sole ⟨m.initial, tail, htext, hfirst⟩ (p := .mark m) rfl fun rest hrest =>
    Pattern.first?_mark m hrest

/-- A mark with a blank before it. -/
theorem lexes_spacedMark {first : Char → Prop} (m : Mark) (hfirst : first ' ') :
    Lexes first Unmerged (' ' :: m.text.toList) (Sole (.mark m) m.text) := by
  have hmark : Lexes (Text.isBlank · = false) Unmerged m.text.toList (Sole (.mark m) m.text) :=
    lexes_mark m (by cases m <;> decide)
  exact hmark.blank (fun _ h => h) hfirst

section

variable {first follow : Char → Prop} {cs : List Char} {Q : List Token → Prop}

/-- What an expression may begin with may come after a mark. -/
theorem Lexes.afterMark (h : Lexes Opening follow cs Q) : Lexes Unmerged follow cs Q :=
  h.begins fun _ hch => hch.2

/-- A text with a blank before it. -/
theorem Lexes.spaced (h : Lexes Opening follow cs Q) (hfirst : first ' ') :
    Lexes first follow (' ' :: cs) Q := h.blank (fun _ hch => hch.1) hfirst

/-- What may come after any lexeme may come after a word. -/
theorem Lexes.endsWord (h : Lexes first Apart cs Q) : Lexes first Closing cs Q :=
  h.ends fun _ hch => hch.1

/-- What may come after any lexeme may come after a mark. -/
theorem Lexes.endsMark (h : Lexes first Unmerged cs Q) : Lexes first Closing cs Q :=
  h.ends fun _ hch => hch.2

end

end Cursor
end MonkeySyntax
