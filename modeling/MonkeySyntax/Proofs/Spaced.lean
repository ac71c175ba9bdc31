/-
# Lexemes with a blank between them

| lexeme | text | kind | value |
| --- | --- | --- | --- |
| a keyword | its word | its own | the text |
| a name | a word that is no keyword | identifier | the text |
| a number | ASCII digits | integer | the text |
| a mark | its text | its own | the text |
| a string | `v` between quotes, a backslash before every quote and backslash | string | `v` |

Written one after the other with a blank between any two, lexemes are read as they were meant
(`tokenize_spaced`).  For a string this takes two halves that know nothing of each other: the search
for the closing quote must not stop at a quote of `v` (`Pattern.closeQuote_escape`), and replacing
the escapes must leave nothing of `v` but what was there (`Escape.unescape_escape`), whatever in `v`
looks like an escape.
-/

import MonkeySyntax.Lexer
import MonkeySyntax.Proofs.Languages
import MonkeySyntax.Proofs.Streaming

namespace MonkeySyntax

namespace Escape

/-- `v` as it is written between the quotes of a string. -/
def escape (v : List Char) : List Char :=
  v.flatMap fun c => if c = '\\' ∨ c = '"' then ['\\', c] else [c]

/-- A quote or a backslash is written with a backslash before it. -/
theorem escape_cons_of_special {c : Char} (v : List Char) (h : c = '\\' ∨ c = '"') :
    escape (c :: v) = '\\' :: c :: escape v := by simp [escape, h]

/-- Any other character is written as it is. -/
theorem escape_cons_of_plain {c : Char} (v : List Char) (h : ¬(c = '\\' ∨ c = '"')) :
    escape (c :: v) = c :: escape v := by simp [escape, h]

/-- **Replacing the escapes undoes writing them.** -/
theorem unescape_escape (v : List Char) : unescape (escape v) = v := by
  induction v with
  | nil => simp [escape, unescape]
  | cons c v ih =>
    by_cases hspecial : c = '\\' ∨ c = '"'
    · have hsimple : simple? c = some c := by rcases hspecial with rfl | rfl <;> decide
      rw [escape_cons_of_special v hspecial, unescape, hsimple, ih]
    · have hbackslash : c ≠ '\\' := fun h => hspecial (.inl h)
      rw [escape_cons_of_plain v hspecial, unescape]
      · rw [ih]
      · simp [hbackslash]
      · simp [hbackslash]

end Escape

open Escape (escape)

namespace Pattern

open Computability

/-- A value is written in units. -/
theorem escape_mem (v : List Char) : escape v ∈ quotedUnit∗ := by
  refine Language.mem_kstar.2 ⟨v.map _, rfl, List.forall_mem_map.2 fun c _ => ?_⟩
  by_cases hspecial : c = '\\' ∨ c = '"'
  · have hline : c ≠ '\n' := by rcases hspecial with rfl | rfl <;> decide
    rw [if_pos hspecial]
    exact escaped_mem hline
  · rw [if_neg hspecial]
    exact plain_mem (fun h => hspecial (.inr h)) fun h => hspecial (.inl h)

/-- **The quote that closes a string** is found behind all of its value. -/
theorem closeQuote_escape (v rest : List Char) :
    closeQuote (escape v ++ '"' :: rest) = some (escape v ++ ['"'], rest) :=
  closeQuote_append (escape_mem v) rest

/-- The first quote that closes a written string is its own, as those inside are escaped. -/
theorem first?_quoted (v rest : List Char) :
    first? ('"' :: (escape v ++ ['"']) ++ rest) =
      some (.quoted, '"' :: (escape v ++ ['"']), rest) := by
  have hword : run isWordStart isWordPart ('"' :: (escape v ++ '"' :: rest)) = none :=
    run_eq_none (by decide)
  have hnumber : run Char.isDigit Char.isDigit ('"' :: (escape v ++ '"' :: rest)) = none :=
    run_eq_none (by decide)
  have hblank : run Text.isBlank Text.isBlank ('"' :: (escape v ++ '"' :: rest)) = none :=
    run_eq_none (by decide)
  simp [first?, table, split, hword, hnumber, hblank, closeQuote_escape]

end Pattern

/-- A lexeme that is a token, or the value of one that is a string. -/
inductive Lexeme where
  | keyword (w : Keyword)
  | name (s : String) (isRun : Pattern.IsRun isWordStart isWordPart s.toList)
      (free : ∀ w : Keyword, w.text ≠ s)
  | number (s : String) (isRun : Pattern.IsRun Char.isDigit Char.isDigit s.toList)
  | mark (m : Mark)
  | string (v : String)

namespace Lexeme

/-- How a lexeme is written. -/
def text : Lexeme → String
  | keyword w => w.text
  | name s _ _ => s
  | number s _ => s
  | mark m => m.text
  | string v => String.ofList ('"' :: (escape v.toList ++ ['"']))

/-- The kind and the value of the token that a lexeme is. -/
def meaning : Lexeme → Kind × String
  | keyword w => (.keyword w, w.text)
  | name s _ _ => (.identifier, s)
  | number s _ => (.integer, s)
  | mark m => (.mark m, m.text)
  | string v => (.string, v)

/-- Lexemes in one text, with a blank between any two. -/
def spaced (ls : List Lexeme) : String := " ".intercalate (ls.map text)

example : Lexeme.spaced [.mark .not, .string "a\"\\n"] = "! \"a\\\"\\\\n\"" := by decide +kernel

/-- The tokens `ts` are those that the lexemes `ls` were meant to be. -/
def Mean (ls : List Lexeme) (ts : List Token) : Prop :=
  ts.map (fun t => (t.kind, t.value)) = ls.map meaning

/-- A lexeme means a token of the input that is legal. -/
theorem kind_meaning (l : Lexeme) : l.meaning.1 ≠ .eof ∧ l.meaning.1 ≠ .illegal := by
  cases l <;> simp [meaning]

/-- All tokens that lexemes mean are legal ones of the input. -/
theorem Mean.kind_ne {ls : List Lexeme} {ts : List Token} (h : Mean ls ts) {t : Token}
    (ht : t ∈ ts) : t.kind ≠ .eof ∧ t.kind ≠ .illegal := by
  have hmem : (t.kind, t.value) ∈ ls.map meaning := h ▸ List.mem_map_of_mem ht
  obtain ⟨l, -, hl⟩ := List.mem_map.1 hmem
  have hkind : l.meaning.1 = t.kind := congrArg Prod.fst hl
  exact hkind ▸ l.kind_meaning

end Lexeme

namespace Cursor

/-! ### The text of lexemes -/

/-- A character that is no blank. -/
def Solid (ch : Char) : Prop := Text.isBlank ch = false

instance : DecidablePred Solid := fun ch => inferInstanceAs (Decidable (Text.isBlank ch = false))

/-- A string is read as what was written between the quotes. -/
theorem lexes_string (v : String) :
    Lexes Solid (fun _ => True) (Lexeme.string v).text.toList (Sole .string v) := by
  have htoken : Pattern.token? .quoted ('"' :: (escape v.toList ++ ['"'])) =
      some (.string, v) := by
    simp [Pattern.token?, Escape.unescape_escape]
  simp only [Lexeme.text, String.toList_ofList]
  exact lexes_sole ⟨'"', _, rfl, by decide⟩ htoken fun rest _ =>
    Pattern.first?_quoted v.toList rest

/-- **A lexeme before a blank is read as the token it is meant to be.** -/
theorem lexes_lexeme (l : Lexeme) :
    Lexes Solid (· = ' ') l.text.toList (Sole l.meaning.1 l.meaning.2) := by
  have hapart : ∀ ch, ch = ' ' → Apart ch := by
    rintro _ rfl
    decide
  have hunmerged : ∀ ch, ch = ' ' → Unmerged ch := by
    rintro _ rfl
    decide
  have hsolid : ∀ ch, Opening ch → Solid ch := fun _ hch => hch.1
  cases l with
  | keyword w =>
    have hkind : Kind.ofWord w.text = .keyword w := by rw [Kind.ofWord, Keyword.ofText?_text]
    simp only [Lexeme.text, Lexeme.meaning, ← hkind]
    exact ((lexes_run w.isRun_text).ends hapart).begins hsolid
  | name s isRun free =>
    have hnone : Keyword.ofText? s = none := by
      refine Option.eq_none_iff_forall_ne_some.2 fun w hw => ?_
      exact free w (Keyword.eq_of_ofText? hw)
    have hkind : Kind.ofWord s = .identifier := by rw [Kind.ofWord, hnone]
    simp only [Lexeme.text, Lexeme.meaning, ← hkind]
    exact ((lexes_run isRun).ends hapart).begins hsolid
  | number s isRun => exact ((lexes_digits isRun).ends hapart).begins hsolid
  | mark m => exact (lexes_mark m (by cases m <;> decide)).ends hunmerged
  | string v => exact (lexes_string v).ends fun _ _ => trivial

/-- **So is one lexeme after another.** -/
theorem lexes_spaced (l : Lexeme) (ls : List Lexeme) :
    Lexes Solid (· = ' ') (Lexeme.spaced (l :: ls)).toList (Lexeme.Mean (l :: ls)) := by
  induction ls generalizing l with
  | nil =>
    have htext : Lexeme.spaced [l] = l.text := by simp [Lexeme.spaced]
    rw [htext]
    refine (lexes_lexeme l).imp ?_
    rintro _ ⟨t, hkind, hvalue, rfl⟩
    simp [Lexeme.Mean, hkind, hvalue]
  | cons l' ls ih =>
    have htext : (Lexeme.spaced (l :: l' :: ls)).toList =
        l.text.toList ++ ' ' :: (Lexeme.spaced (l' :: ls)).toList := by
      simp [Lexeme.spaced, String.intercalate_cons_cons]
    rw [htext]
    refine ((lexes_lexeme l).append ((ih l').blank (fun _ hch => hch) rfl)).imp ?_
    rintro _ ⟨_, ts, ⟨t, hkind, hvalue, rfl⟩, hts, rfl⟩
    rw [Lexeme.Mean] at hts
    simp [Lexeme.Mean, hkind, hvalue, hts]

/-! ### The tokens of a text -/

/-- The only token of an empty text is its end. -/
theorem tokens_of_nil {c : Cursor} (h : c.rest = []) : c.tokens = [.eof (c.spanTo c)] := by
  rw [tokens, next_of_nil h]
  rfl

/-- Tokens that are handed out before the end of the input are the first of all. -/
theorem Hands.tokens_eq {c d : Cursor} {ts : List Token} (h : c.Hands ts d)
    (hts : ∀ t ∈ ts, t.kind ≠ .eof) : c.tokens = ts ++ d.tokens := by
  induction ts generalizing c with
  | nil => rw [hands_nil_iff.1 h, List.nil_append]
  | cons t ts ih =>
    obtain ⟨rfl, hrest⟩ := hands_cons_iff.1 h
    obtain ⟨ht, hts⟩ := List.forall_mem_cons.1 hts
    rw [tokens, dif_neg ht, ih hrest hts, List.cons_append]

/-- **Lexemes with blanks between them are read as they are meant,** by induction on the list, and
then the end of the input. -/
theorem tokens_spaced (ls : List Lexeme) (file : Option String) :
    ∃ ts span, (Cursor.ofText (Lexeme.spaced ls) file).tokens = ts ++ [.eof span] ∧
      Lexeme.Mean ls ts := by
  cases ls with
  | nil => exact ⟨[], _, tokens_of_nil rfl, rfl⟩
  | cons l ls =>
    obtain ⟨ts, d, hts, hd, hmean⟩ := (lexes_spaced l ls).reads
      (Cursor.ofText (Lexeme.spaced (l :: ls)) file) [] (List.append_nil _).symm (by simp)
    refine ⟨ts, d.spanTo d, ?_, hmean⟩
    rw [hts.tokens_eq fun t ht => (hmean.kind_ne ht).1, tokens_of_nil hd]

end Cursor

/-- **Lexing undoes writing.**  Lexemes with a blank between any two are read as the tokens they
were meant to be, in order, and then the end of the input. -/
theorem tokenize_spaced (ls : List Lexeme) (file : Option String) :
    ∃ tokens, tokenize (Lexeme.spaced ls) file = .ok tokens ∧
      tokens.map (fun t => (t.kind, t.value)) = ls.map Lexeme.meaning ++ [(.eof, "")] := by
  obtain ⟨ts, span, htokens, hmean⟩ := Cursor.tokens_spaced ls file
  have hlegal : (ts ++ [Token.eof span]).find? (·.kind = .illegal) = none := by
    rw [List.find?_eq_none]
    rintro t ht
    rcases List.mem_append.1 ht with ht | ht
    · simpa using (hmean.kind_ne ht).2
    · simp [List.mem_singleton.1 ht, Token.eof]
  refine ⟨ts ++ [.eof span], ?_, ?_⟩
  · rw [tokenize_eq, htokens, hlegal]
  · rw [List.map_append, hmean]
    rfl

end MonkeySyntax
