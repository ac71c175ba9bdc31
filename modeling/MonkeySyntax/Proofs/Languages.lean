/-
# The languages of the patterns

What a pattern may take is a language, written as the regular expression that the pattern is:

| pattern | language |
| --- | --- |
| word | `[a-zA-Z_][a-zA-Z0-9_]*` |
| number | `[0-9][0-9]*` |
| blanks | `\s\s*` |
| quoted | `"(?:[^"\\]\|\\.)*"` |
| comment | `//.*` |
| a mark | its text |

A dot stands for any character but a line feed.  `Pattern.split` takes the longest head of a text
that is in the language of its pattern, and nothing if there is none (`Pattern.splits_split`).  For
the quoted pattern this says that its language is read off from left to right: a text between quotes
falls into units in one way only, so the first quote that is no part of a unit closes it.
-/

import Mathlib.Computability.Language
import MonkeySyntax.Proofs.Lexemes

namespace MonkeySyntax
namespace Pattern

open Computability

/-! ### Regular expressions -/

/-- The texts of one character with the property `p`. -/
def single (p : Char → Prop) : Language Char := {cs | ∃ c, p c ∧ cs = [c]}

/-- What stands for one character between quotes: a character other than a quote and a backslash, or
a backslash and a character that is no line feed. -/
def quotedUnit : Language Char :=
  single (fun c => c ≠ '"' ∧ c ≠ '\\') + {['\\']} * single (· ≠ '\n')

/-- The texts that are lexemes of a pattern. -/
def language : Pattern → Language Char
  | word => single (isWordStart ·) * (single (isWordPart ·))∗
  | number => single (Char.isDigit ·) * (single (Char.isDigit ·))∗
  | blanks => single (Text.isBlank ·) * (single (Text.isBlank ·))∗
  | quoted => {['"']} * quotedUnit∗ * {['"']}
  | comment => {['/', '/']} * (single (· ≠ '\n'))∗
  | mark m => {m.text.toList}

variable {cs a b rest : List Char}

/-- In the language of a single text there is just this text. -/
theorem mem_singleton_iff : cs ∈ ({a} : Language Char) ↔ cs = a := Iff.rfl

/-- Any number of characters of a kind are a text of such characters. -/
theorem mem_kstar_single_iff {p : Char → Prop} : cs ∈ (single p)∗ ↔ ∀ c ∈ cs, p c := by
  rw [Language.mem_kstar]
  constructor
  · rintro ⟨us, rfl, hus⟩ c hc
    obtain ⟨u, hu, hcu⟩ := List.mem_flatten.1 hc
    obtain ⟨d, hd, rfl⟩ := hus u hu
    rwa [List.mem_singleton.1 hcu]
  · intro h
    refine ⟨cs.map ([·]), cs.flatMap_singleton'.symm, ?_⟩
    exact List.forall_mem_map.2 fun c hc => ⟨c, h c hc, rfl⟩

/-- One character of a kind and then any number of another are a run. -/
theorem mem_mul_kstar_iff {start p : Char → Bool} :
    cs ∈ single (start ·) * (single (p ·))∗ ↔ IsRun start p cs := by
  rw [Language.mem_mul]
  constructor
  · rintro ⟨_, ⟨c, hc, rfl⟩, tail, htail, rfl⟩
    exact ⟨c, tail, rfl, hc, mem_kstar_single_iff.1 htail⟩
  · rintro ⟨c, tail, rfl, hc, htail⟩
    exact ⟨[c], ⟨c, hc, rfl⟩, tail, mem_kstar_single_iff.2 htail, rfl⟩

/-- A quoted lexeme is a body of units between quotes. -/
theorem mem_quoted_iff :
    cs ∈ language .quoted ↔ ∃ body ∈ quotedUnit∗, cs = '"' :: (body ++ ['"']) := by
  rw [language, Language.mem_mul]
  constructor
  · rintro ⟨_, h, _, rfl, rfl⟩
    obtain ⟨_, rfl, body, hbody, rfl⟩ := Language.mem_mul.1 h
    exact ⟨body, hbody, rfl⟩
  · rintro ⟨body, hbody, rfl⟩
    exact ⟨_, Language.append_mem_mul rfl hbody, ['"'], rfl, rfl⟩

/-- A comment is two slashes and a text without a line feed. -/
theorem mem_comment_iff :
    cs ∈ language .comment ↔ ∃ body, cs = '/' :: '/' :: body ∧ ∀ c ∈ body, c ≠ '\n' := by
  rw [language, Language.mem_mul]
  constructor
  · rintro ⟨_, rfl, body, hbody, rfl⟩
    exact ⟨body, rfl, mem_kstar_single_iff.1 hbody⟩
  · rintro ⟨body, rfl, hbody⟩
    exact ⟨['/', '/'], rfl, body, mem_kstar_single_iff.2 hbody, rfl⟩

/-- A character that is no quote and no backslash is a unit by itself. -/
theorem plain_mem {c : Char} (hquote : c ≠ '"') (hbackslash : c ≠ '\\') : [c] ∈ quotedUnit :=
  .inl ⟨c, ⟨hquote, hbackslash⟩, rfl⟩

/-- A backslash and any character but a line feed are a unit. -/
theorem escaped_mem {c : Char} (hline : c ≠ '\n') : ['\\', c] ∈ quotedUnit :=
  .inr (Language.append_mem_mul (a := ['\\']) rfl ⟨c, hline, rfl⟩)

/-! ### The longest head of a text -/

/-- `a` is the longest head of the text `cs` that is in the language `l`. -/
structure Longest (l : Language Char) (cs a : List Char) : Prop where
  mem : a ∈ l
  isHead : a <+: cs
  greatest : ∀ s ∈ l, s <+: cs → s.length ≤ a.length

/-- Only one head of a text is the longest in a language. -/
theorem Longest.unique {l : Language Char} (ha : Longest l cs a) (hb : Longest l cs b) : a = b :=
  have hle : a.length ≤ b.length := hb.greatest a ha.mem ha.isHead
  (List.prefix_of_prefix_length_le ha.isHead hb.isHead hle).eq_of_length
    (Nat.le_antisymm hle (ha.greatest b hb.mem hb.isHead))

/-- What was taken off the text `cs` is its longest head in the language `l`, with what follows it,
or nothing if no head of the text is in the language. -/
def Splits (l : Language Char) (cs : List Char) : Option (List Char × List Char) → Prop
  | some (a, b) => cs = a ++ b ∧ Longest l cs a
  | none => ∀ s ∈ l, ¬s <+: cs

/-- It is enough that what is taken off is in the language, and that no head in the language is left
for one that is shorter. -/
theorem splits_of {l : Language Char} {r : Option (List Char × List Char)}
    (hmem : ∀ a b, r = some (a, b) → cs = a ++ b ∧ a ∈ l)
    (hgreatest : ∀ s ∈ l, s <+: cs → ∃ a b, r = some (a, b) ∧ s.length ≤ a.length) :
    Splits l cs r := by
  cases r with
  | none =>
    intro s hs hhead
    obtain ⟨a, b, hr, -⟩ := hgreatest s hs hhead
    cases hr
  | some r =>
    obtain ⟨a, b⟩ := r
    obtain ⟨rfl, ha⟩ := hmem a b rfl
    refine ⟨rfl, ha, List.prefix_append a b, fun s hs hhead => ?_⟩
    obtain ⟨a', b', hr, hle⟩ := hgreatest s hs hhead
    cases hr
    exact hle

/-- A run takes what is longest in its language. -/
theorem splits_run (start p : Char → Bool) (cs : List Char) :
    Splits (single (start ·) * (single (p ·))∗) cs (run start p cs) := by
  refine splits_of (fun a b hrun => ?_) fun s hs hhead => ?_
  · exact ⟨(run_eq_some hrun).1, mem_mul_kstar_iff.2 (isRun_of_run hrun)⟩
  · obtain ⟨rest, rfl⟩ := hhead
    obtain ⟨c, tail, rfl, hc, htail⟩ := mem_mul_kstar_iff.1 hs
    refine ⟨c :: (tail ++ rest).takeWhile p, (tail ++ rest).dropWhile p, if_pos hc, ?_⟩
    rw [List.takeWhile_append_of_pos htail]
    simp

/-- **A text between quotes ends at its first quote that is no part of a unit.** -/
theorem closeQuote_append (hbody : a ∈ quotedUnit∗) (rest : List Char) :
    closeQuote (a ++ '"' :: rest) = some (a ++ ['"'], rest) := by
  obtain ⟨us, rfl, hus⟩ := Language.mem_kstar.1 hbody
  clear hbody
  induction us with
  | nil => rfl
  | cons u us ih =>
    obtain ⟨hu, htail⟩ := List.forall_mem_cons.1 hus
    rw [List.flatten_cons, List.append_assoc, List.append_assoc]
    rcases hu with ⟨c, ⟨hquote, hbackslash⟩, rfl⟩ | hu
    · simp [closeQuote, hbackslash, ih htail]
    · obtain ⟨_, rfl, _, ⟨c, hc, rfl⟩, rfl⟩ := Language.mem_mul.1 hu
      simp [closeQuote, hc, ih htail]

/-- What is found before a closing quote falls into units. -/
theorem exists_of_closeQuote (h : closeQuote cs = some (a, b)) :
    ∃ body ∈ quotedUnit∗, a = body ++ ['"'] := by
  have hcons : ∀ {u body}, u ∈ quotedUnit → body ∈ quotedUnit∗ → u ++ body ∈ quotedUnit∗ :=
    fun hu hbody => mul_kstar_le_kstar (a := quotedUnit) (Language.append_mem_mul hu hbody)
  fun_induction closeQuote cs generalizing a b with
  | case1 => cases h
  | case2 cs =>
    cases h
    exact ⟨[], Language.nil_mem_kstar _, rfl⟩
  | case3 => cases h
  | case4 => cases h
  | case5 c cs hline ih =>
    obtain ⟨⟨a', b'⟩, h', heq⟩ := Option.map_eq_some_iff.1 h
    cases heq
    obtain ⟨body, hbody, rfl⟩ := ih h'
    exact ⟨'\\' :: c :: body, hcons (escaped_mem hline) hbody, rfl⟩
  | case6 c cs hquote hlone hpair ih =>
    obtain ⟨⟨a', b'⟩, h', heq⟩ := Option.map_eq_some_iff.1 h
    cases heq
    obtain ⟨body, hbody, rfl⟩ := ih h'
    have hbackslash : c ≠ '\\' := by
      rintro rfl
      cases cs with
      | nil => exact hlone rfl rfl
      | cons d cs => exact hpair d cs rfl rfl
    exact ⟨c :: body, hcons (plain_mem hquote hbackslash) hbody, rfl⟩

/-- What is taken as a quoted lexeme begins with a quote. -/
theorem starts_of_split_quoted (h : split .quoted cs = some (a, b)) : ∃ tail, cs = '"' :: tail := by
  rcases cs with _ | ⟨c, tail⟩
  · cases h
  · by_cases hc : c = '"'
    · exact ⟨tail, by rw [hc]⟩
    · simp [split, hc] at h

/-- What is taken as a comment begins with two slashes. -/
theorem starts_of_split_comment (h : split .comment cs = some (a, b)) :
    ∃ tail, cs = '/' :: '/' :: tail := by
  rcases cs with _ | ⟨c, _ | ⟨d, tail⟩⟩
  · cases h
  · simp [split] at h
  · by_cases hc : c = '/'
    · by_cases hd : d = '/'
      · exact ⟨tail, by rw [hc, hd]⟩
      · subst hc
        simp [split, hd] at h
    · simp [split, hc] at h

/-- A quoted lexeme is taken up to its closing quote, and no other head of the text is one. -/
theorem splits_quoted (cs : List Char) : Splits (language .quoted) cs (split .quoted cs) := by
  refine splits_of (fun a b hsplit => ?_) fun s hs hhead => ?_
  · refine ⟨(split_eq_some hsplit).1, mem_quoted_iff.2 ?_⟩
    obtain ⟨tail, rfl⟩ := starts_of_split_quoted hsplit
    obtain ⟨⟨a', b'⟩, hclose, heq⟩ := Option.map_eq_some_iff.1 hsplit
    cases heq
    obtain ⟨body, hbody, rfl⟩ := exists_of_closeQuote hclose
    exact ⟨body, hbody, rfl⟩
  · obtain ⟨rest, rfl⟩ := hhead
    obtain ⟨body, hbody, rfl⟩ := mem_quoted_iff.1 hs
    refine ⟨'"' :: (body ++ ['"']), rest, ?_, Nat.le_refl _⟩
    simp [split, closeQuote_append hbody]

/-- A comment takes what is longest in its language. -/
theorem splits_comment (cs : List Char) : Splits (language .comment) cs (split .comment cs) := by
  refine splits_of (fun a b hsplit => ?_) fun s hs hhead => ?_
  · refine ⟨(split_eq_some hsplit).1, mem_comment_iff.2 ?_⟩
    obtain ⟨tail, rfl⟩ := starts_of_split_comment hsplit
    cases hsplit
    refine ⟨_, rfl, fun c hc => ?_⟩
    simpa using List.all_eq_true.1 List.all_takeWhile c hc
  · obtain ⟨rest, rfl⟩ := hhead
    obtain ⟨body, rfl, hbody⟩ := mem_comment_iff.1 hs
    have htake : (body ++ rest).takeWhile (· ≠ '\n') = body ++ rest.takeWhile (· ≠ '\n') :=
      List.takeWhile_append_of_pos (by simpa using hbody)
    refine ⟨'/' :: '/' :: (body ++ rest).takeWhile (· ≠ '\n'), _, rfl, ?_⟩
    rw [htake]
    simp

/-- A mark takes its own text or nothing. -/
theorem splits_mark (m : Mark) (cs : List Char) :
    Splits (language (.mark m)) cs (split (.mark m) cs) := by
  refine splits_of (fun a b hsplit => ?_) fun s hs hhead => ?_
  · refine ⟨(split_eq_some hsplit).1, ?_⟩
    simp only [split] at hsplit
    split at hsplit
    · cases hsplit
      rfl
    · cases hsplit
  · obtain rfl := mem_singleton_iff.1 hs
    exact ⟨_, _, if_pos (List.isPrefixOf_iff_prefix.2 hhead), Nat.le_refl _⟩

/-- **A pattern takes the longest head of a text that is in its language,** if there is one. -/
theorem splits_split (p : Pattern) (cs : List Char) : Splits p.language cs (p.split cs) := by
  cases p with
  | word => exact splits_run isWordStart isWordPart cs
  | number => exact splits_run Char.isDigit Char.isDigit cs
  | blanks => exact splits_run Text.isBlank Text.isBlank cs
  | quoted => exact splits_quoted cs
  | comment => exact splits_comment cs
  | mark m => exact splits_mark m cs

section

variable {p : Pattern}

/-- **What a pattern takes is the longest head of the text in its language.** -/
theorem longest_of_split (h : p.split cs = some (a, b)) : Longest p.language cs a := by
  have hsplits := splits_split p cs
  rw [h] at hsplits
  exact hsplits.2

/-- Where a pattern takes nothing, no head of the text is in its language. -/
theorem not_isHead_of_split {s : List Char} (h : p.split cs = none) (hs : s ∈ p.language) :
    ¬s <+: cs := by
  have hsplits := splits_split p cs
  rw [h] at hsplits
  exact hsplits s hs

/-- What is found at the head of a text is a lexeme of its pattern. -/
theorem mem_of_first? (h : first? cs = some (p, a, b)) : a ∈ p.language :=
  (longest_of_split (first?_eq_some h)).mem

end

end Pattern
end MonkeySyntax
