/-
# Where escapes begin

The pattern of a string literal takes its body in units: a character by itself, or a backslash and
the character after it (`QuotedUnit`).  The escapes in the body are replaced by another loop, which
takes now one character and now four.  The two agree on which backslashes begin an escape:

| units | stand for |
| --- | --- |
| a character by itself | that character |
| `\n`, `\t`, `\r`, `\\`, `\"`, `\0` | the character of that name |
| `\x` and two hexadecimal digits by themselves | the character with that code |
| `\x` and one, where no other follows | the character with that code |
| `\x`, where none follows | `\x` |
| a backslash and any other character | the two of them |

A line of this table is a `Group` of units, and what a body stands for is put together group by
group (`Means`).  The loop takes one group in a round, but for the last line, where it takes the
backslash in one round and what follows in another.  So it is always before a unit, or before the
second character of one, which is no backslash then (`Between`); and a backslash that it comes to is
the first character of a unit (`unescape_units`).
-/

import MonkeySyntax.Proofs.Languages

namespace MonkeySyntax

/-- What the body of a quoted lexeme is made of. -/
inductive QuotedUnit where
  /-- A character by itself. -/
  | plain (c : Char) (h : c ≠ '"' ∧ c ≠ '\\')
  /-- A backslash and a character. -/
  | escaped (c : Char) (h : c ≠ '\n')

namespace QuotedUnit

/-- A unit as it is written. -/
def text : QuotedUnit → List Char
  | plain c _ => [c]
  | escaped c _ => ['\\', c]

/-- Units as they are written. -/
def textAll (us : List QuotedUnit) : List Char := us.flatMap text

@[simp] theorem textAll_nil : textAll [] = [] := rfl

@[simp] theorem textAll_plain (c : Char) (h : c ≠ '"' ∧ c ≠ '\\') (us : List QuotedUnit) :
    textAll (plain c h :: us) = c :: textAll us := rfl

@[simp] theorem textAll_escaped (c : Char) (h : c ≠ '\n') (us : List QuotedUnit) :
    textAll (escaped c h :: us) = '\\' :: c :: textAll us := rfl

open Computability in
/-- Whatever falls into units by the pattern is a text of units. -/
theorem exists_of_mem {body : List Char} (h : body ∈ Pattern.quotedUnit∗) :
    ∃ us, textAll us = body := by
  obtain ⟨texts, rfl, htexts⟩ := Language.mem_kstar.1 h
  clear h
  induction texts with
  | nil => exact ⟨[], rfl⟩
  | cons t texts ih =>
    obtain ⟨ht, htail⟩ := List.forall_mem_cons.1 htexts
    obtain ⟨us, hus⟩ := ih htail
    rw [List.flatten_cons, ← hus]
    rcases ht with ⟨c, hc, rfl⟩ | ht
    · exact ⟨plain c hc :: us, rfl⟩
    · obtain ⟨_, rfl, _, ⟨c, hc, rfl⟩, rfl⟩ := Language.mem_mul.1 ht
      exact ⟨escaped c hc :: us, rfl⟩

/-- **A text falls into units in one way only.** -/
theorem textAll_injective {us vs : List QuotedUnit} (h : textAll us = textAll vs) : us = vs := by
  induction us generalizing vs with
  | nil =>
    rcases vs with _ | ⟨⟨c, hc⟩ | ⟨c, hc⟩, vs⟩
    · rfl
    · cases h
    · cases h
  | cons u us ih =>
    rcases u with ⟨c, hc⟩ | ⟨c, hc⟩ <;> rcases vs with _ | ⟨⟨d, hd⟩ | ⟨d, hd⟩, vs⟩
    · cases h
    · obtain ⟨rfl, hrest⟩ := List.cons.inj h
      rw [ih hrest]
    · exact absurd (List.cons.inj h).1 hc.2
    · cases h
    · exact absurd (List.cons.inj h).1.symm hd.2
    · obtain ⟨rfl, hrest⟩ := List.cons.inj (List.cons.inj h).2
      rw [ih hrest]

end QuotedUnit

open QuotedUnit

namespace Escape

/-! ### What units stand for -/

/-- The characters that have a name behind a backslash. -/
def named : List (Char × Char) :=
  [('n', '\n'), ('t', '\t'), ('r', '\r'), ('\\', '\\'), ('"', '"'), ('0', '\x00')]

/-- The hexadecimal digit `c`, in either case, is worth `n`. -/
def HexDigit (c : Char) (n : Nat) : Prop :=
  n < 16 ∧ (c = Nat.digitChar n ∨ c = (Nat.digitChar n).toUpper)

instance (c : Char) (n : Nat) : Decidable (HexDigit c n) :=
  inferInstanceAs (Decidable (n < 16 ∧ (c = Nat.digitChar n ∨ c = (Nat.digitChar n).toUpper)))

/-- The first of the units is a hexadecimal digit by itself. -/
def DigitFirst (us : List QuotedUnit) : Prop := ∃ c h vs n, us = .plain c h :: vs ∧ HexDigit c n

/-- The first of the units `us`, those before `vs`, stand for `cs`. -/
inductive Group : List QuotedUnit → List Char → List QuotedUnit → Prop
  | plain {c : Char} {h : c ≠ '"' ∧ c ≠ '\\'} {vs : List QuotedUnit} :
    Group (.plain c h :: vs) [c] vs
  | named {c d : Char} {h : c ≠ '\n'} {vs : List QuotedUnit} :
    (c, d) ∈ named → Group (.escaped c h :: vs) [d] vs
  | twoDigits {a b d : Char} {m n : Nat} {h : 'x' ≠ '\n'} {ha : a ≠ '"' ∧ a ≠ '\\'}
      {hb : b ≠ '"' ∧ b ≠ '\\'} {vs : List QuotedUnit} :
    HexDigit a m → HexDigit b n → d.toNat = 16 * m + n →
      Group (.escaped 'x' h :: .plain a ha :: .plain b hb :: vs) [d] vs
  | oneDigit {a d : Char} {n : Nat} {h : 'x' ≠ '\n'} {ha : a ≠ '"' ∧ a ≠ '\\'}
      {vs : List QuotedUnit} :
    HexDigit a n → ¬DigitFirst vs → d.toNat = n →
      Group (.escaped 'x' h :: .plain a ha :: vs) [d] vs
  | noDigit {h : 'x' ≠ '\n'} {vs : List QuotedUnit} :
    ¬DigitFirst vs → Group (.escaped 'x' h :: vs) ['\\', 'x'] vs
  | other {c : Char} {h : c ≠ '\n'} {vs : List QuotedUnit} :
    (∀ d, (c, d) ∉ named) → c ≠ 'x' → Group (.escaped c h :: vs) ['\\', c] vs

/-- What units stand for, group by group. -/
inductive Means : List QuotedUnit → List Char → Prop
  | nil : Means [] []
  | group {us vs : List QuotedUnit} {cs ds : List Char} :
    Group us cs vs → Means vs ds → Means us (cs ++ ds)

/-! ### Names and digits -/

/-- The characters with a name are those that an escape stands for by itself. -/
theorem mem_named_iff {c d : Char} : (c, d) ∈ named ↔ simple? c = some d := by
  constructor
  · intro h
    simp only [named, List.mem_cons, Prod.mk.injEq, List.not_mem_nil, or_false] at h
    rcases h with ⟨rfl, rfl⟩ | ⟨rfl, rfl⟩ | ⟨rfl, rfl⟩ | ⟨rfl, rfl⟩ | ⟨rfl, rfl⟩ | ⟨rfl, rfl⟩ <;>
      rfl
  · intro h
    unfold simple? at h
    split_ifs at h with h₁ h₂ h₃ h₄ h₅ h₆ <;> cases h <;> simp [named, *]

/-- Any other character after a backslash is no such escape. -/
theorem simple?_eq_none {c : Char} (h : ∀ d, (c, d) ∉ named) : simple? c = none := by
  cases hc : simple? c with
  | none => rfl
  | some d => exact absurd (mem_named_iff.2 hc) (h d)

/-- The sixteen digits are looked for in either case, and are worth what they should be. -/
theorem isHexDigit_digitChar : ∀ n < 16,
    (isHexDigit (Nat.digitChar n) ∧ hexDigitValue (Nat.digitChar n) = n) ∧
      isHexDigit (Nat.digitChar n).toUpper ∧ hexDigitValue (Nat.digitChar n).toUpper = n := by
  decide

/-- Every hexadecimal digit is a character of ASCII. -/
theorem toNat_of_isHexDigit {c : Char} (h : isHexDigit c) : c.toNat < 128 := by
  simp only [isHexDigit, Bool.or_eq_true, Bool.and_eq_true, decide_eq_true_eq,
    Pattern.isDigit_iff] at h
  rcases h with (hdigit | ⟨-, hlower⟩) | ⟨-, hupper⟩
  · omega
  · exact Nat.lt_of_le_of_lt hlower (by decide)
  · exact Nat.lt_of_le_of_lt hupper (by decide)

/-- The digits are those that are looked for, and worth what is made of them. -/
theorem hexDigit_iff {c : Char} {n : Nat} :
    HexDigit c n ↔ isHexDigit c ∧ hexDigitValue c = n := by
  constructor
  · rintro ⟨hn, rfl | rfl⟩
    · exact (isHexDigit_digitChar n hn).1
    · exact (isHexDigit_digitChar n hn).2
  · rintro ⟨hc, rfl⟩
    have hall : ∀ k < 128, isHexDigit (.ofNat k) →
        HexDigit (.ofNat k) (hexDigitValue (.ofNat k)) := by decide +kernel
    have hdigit := hall c.toNat (toNat_of_isHexDigit hc)
    rw [Char.ofNat_toNat] at hdigit
    exact hdigit hc

/-- A hexadecimal digit is worth what is made of it. -/
theorem hexDigit_self {c : Char} (h : isHexDigit c) : HexDigit c (hexDigitValue c) :=
  hexDigit_iff.2 ⟨h, rfl⟩

/-- Units begin with a digit if their text does. -/
theorem digitFirst_iff {us : List QuotedUnit} :
    DigitFirst us ↔ ∃ ch ∈ (textAll us).head?, isHexDigit ch := by
  constructor
  · rintro ⟨c, h, vs, n, rfl, hc⟩
    exact ⟨c, rfl, (hexDigit_iff.1 hc).1⟩
  · rintro ⟨ch, hmem, hch⟩
    rcases us with _ | ⟨⟨c, h⟩ | ⟨c, h⟩, vs⟩
    · cases hmem
    · obtain rfl : c = ch := Option.some.inj hmem
      exact ⟨c, h, vs, _, rfl, hexDigit_self hch⟩
    · obtain rfl : '\\' = ch := Option.some.inj hmem
      exact absurd hch (by decide)

/-! ### One round of the loop -/

/-- What one round of the loop writes, and what it leaves. -/
def round : List Char → List Char × List Char
  | [] => ([], [])
  | ['\\'] => (['\\'], [])
  | '\\' :: c :: cs =>
    match simple? c with
    | some d => ([d], cs)
    | none =>
      if c = 'x' then
        if codeDigits cs = [] then (['\\', 'x'], cs)
        else ([Char.ofNat (hexValue (codeDigits cs))], cs.drop (codeDigits cs).length)
      else (['\\'], c :: cs)
  | c :: cs => ([c], cs)

/-- **The escapes of a text are replaced round by round.** -/
theorem unescape_round {cs : List Char} (h : cs ≠ []) :
    unescape cs = (round cs).1 ++ unescape (round cs).2 := by
  unfold round
  split
  · exact absurd rfl h
  · rw [unescape, unescape, List.append_nil]
  · rename_i c cs
    rw [unescape]
    cases simple? c with
    | some d => rfl
    | none =>
      by_cases hx : c = 'x'
      · by_cases hdigits : codeDigits cs = []
        · simp [hx, hdigits]
        · simp [hx, hdigits]
      · simp [hx]
  · rename_i c cs hlone hpair
    rw [unescape]
    · rfl
    · exact hlone
    · exact hpair

/-- A round takes at least one character. -/
theorem length_round {cs : List Char} (h : cs ≠ []) : (round cs).2.length < cs.length := by
  unfold round
  split
  · exact absurd rfl h
  · exact Nat.zero_lt_one
  · rename_i c cs
    cases simple? c with
    | some d =>
      show cs.length < cs.length + 2
      omega
    | none =>
      by_cases hx : c = 'x'
      · by_cases hdigits : codeDigits cs = []
        · simp only [hx, hdigits, if_true, List.length_cons]
          omega
        · simp only [hx, hdigits, if_true, if_false, List.length_drop, List.length_cons]
          omega
      · simp [hx]
  · exact Nat.lt_succ_self _

section

variable {c d : Char} {cs : List Char}

/-- A character that is no backslash is copied. -/
theorem round_plain (h : c ≠ '\\') : round (c :: cs) = ([c], cs) := by
  rw [round] <;> simp [h]

/-- A backslash and a name are replaced by the character of that name. -/
theorem round_named (h : (c, d) ∈ named) : round ('\\' :: c :: cs) = ([d], cs) := by
  simp only [round, mem_named_iff.1 h]

/-- A backslash before any other character is copied, and the character is left for the next round.
-/
theorem round_other (h : ∀ d, (c, d) ∉ named) (hx : c ≠ 'x') :
    round ('\\' :: c :: cs) = (['\\'], c :: cs) := by
  simp only [round, simple?_eq_none h, if_neg hx]

/-- A `\x` is replaced with the digits after it, if there are any. -/
theorem round_x : round ('\\' :: 'x' :: cs) =
    if codeDigits cs = [] then (['\\', 'x'], cs)
    else ([Char.ofNat (hexValue (codeDigits cs))], cs.drop (codeDigits cs).length) := rfl

end

/-- No digit is found where the units begin with none. -/
theorem takeWhile_take_textAll {us : List QuotedUnit} (h : ¬DigitFirst us) (n : Nat) :
    ((textAll us).take n).takeWhile isHexDigit = [] := by
  rw [digitFirst_iff] at h
  generalize textAll us = cs at h
  rcases cs with _ | ⟨ch, cs⟩
  · simp
  · cases n with
    | zero => rfl
    | succ n =>
      have hch : ¬isHexDigit ch := fun hch => h ⟨ch, rfl, hch⟩
      rw [List.take_succ_cons, List.takeWhile_cons_of_neg hch]

/-! ### Rounds and groups -/

namespace Group

variable {us vs : List QuotedUnit} {cs : List Char}

/-- A group takes at least one unit. -/
theorem exists_append (h : Group us cs vs) : ∃ u pre, us = u :: pre ++ vs := by
  cases h with
  | plain | named | noDigit | other => exact ⟨_, [], rfl⟩
  | oneDigit => exact ⟨_, [_], rfl⟩
  | twoDigits => exact ⟨_, [_, _], rfl⟩

/-- **A round takes a group,** or the backslash of one that is kept as it is written. -/
theorem round (h : Group us cs vs) :
    Escape.round (textAll us) = (cs, textAll vs) ∨
      ∃ c hc, us = .escaped c hc :: vs ∧ c ≠ '\\' ∧ cs = ['\\', c] ∧
        Escape.round (textAll us) = (['\\'], c :: textAll vs) := by
  cases h with
  | @plain c h => exact .inl (round_plain h.2)
  | named hd => exact .inl (round_named hd)
  | @twoDigits a b d m n _ _ _ _ hm hn hd =>
    obtain ⟨ha, rfl⟩ := hexDigit_iff.1 hm
    obtain ⟨hb, rfl⟩ := hexDigit_iff.1 hn
    have hdigits : codeDigits (a :: b :: textAll vs) = [a, b] := by simp [codeDigits, ha, hb]
    have hvalue : hexValue [a, b] = d.toNat := by simp [hexValue, hd]
    refine .inl ?_
    simp [round_x, hdigits, hvalue, Char.ofNat_toNat]
  | @oneDigit a d n _ _ _ hn hvs hd =>
    obtain ⟨ha, rfl⟩ := hexDigit_iff.1 hn
    have hdigits : codeDigits (a :: textAll vs) = [a] := by
      rw [codeDigits, List.take_succ_cons, List.takeWhile_cons_of_pos ha,
        takeWhile_take_textAll hvs]
    have hvalue : hexValue [a] = d.toNat := by simp [hexValue, hd]
    refine .inl ?_
    simp [round_x, hdigits, hvalue, Char.ofNat_toNat]
  | noDigit hvs =>
    have hdigits : codeDigits (textAll vs) = [] := takeWhile_take_textAll hvs 2
    refine .inl ?_
    simp [round_x, hdigits]
  | @other c hc _ hnamed hx =>
    -- a second backslash has a name, so what is left behind the first one is none
    have hbackslash : c ≠ '\\' := by
      rintro rfl
      exact hnamed '\\' (by decide)
    exact .inr ⟨c, hc, rfl, hbackslash, rfl, round_other hnamed hx⟩

/-- **The loop makes of a group what it stands for,** and goes on after it. -/
theorem unescape (h : Group us cs vs) :
    Escape.unescape (textAll us) = cs ++ Escape.unescape (textAll vs) := by
  have hne : textAll us ≠ [] := by
    obtain ⟨⟨c, hc⟩ | ⟨c, hc⟩, pre, rfl⟩ := h.exists_append
    · exact List.cons_ne_nil _ _
    · exact List.cons_ne_nil _ _
  rw [unescape_round hne]
  rcases h.round with hround | ⟨c, -, -, hc, rfl, hround⟩
  · rw [hround]
  · rw [hround, unescape_round (List.cons_ne_nil _ _), round_plain hc]
    rfl

end Group

/-- Units that are not done begin with a group. -/
theorem exists_group {us : List QuotedUnit} (h : us ≠ []) : ∃ cs vs, Group us cs vs := by
  have hchar (k : Nat) (hk : k < 256) : ∃ d : Char, d.toNat = k :=
    ⟨.ofNat k, by revert k; decide +kernel⟩
  rcases us with _ | ⟨⟨c, hc⟩ | ⟨c, hc⟩, us⟩
  · exact absurd rfl h
  · exact ⟨_, _, .plain⟩
  · by_cases hnamed : ∃ d, (c, d) ∈ named
    · obtain ⟨d, hd⟩ := hnamed
      exact ⟨_, _, .named hd⟩
    · by_cases hx : c = 'x'
      · subst hx
        by_cases hfirst : DigitFirst us
        · obtain ⟨a, ha, us, m, rfl, hm⟩ := hfirst
          by_cases hsecond : DigitFirst us
          · obtain ⟨b, hb, us, n, rfl, hn⟩ := hsecond
            obtain ⟨d, hd⟩ := hchar (16 * m + n) (by have := hm.1; have := hn.1; omega)
            exact ⟨_, _, .twoDigits hm hn hd⟩
          · obtain ⟨d, hd⟩ := hchar m (by have := hm.1; omega)
            exact ⟨_, _, .oneDigit hm hsecond hd⟩
        · exact ⟨_, _, .noDigit hfirst⟩
      · exact ⟨_, _, .other (fun d hd => hnamed ⟨d, hd⟩) hx⟩

/-- Units stand for something, whatever they are: group after group takes them all. -/
theorem exists_means (us : List QuotedUnit) : ∃ cs, Means us cs := by
  by_cases h : us = []
  · exact ⟨[], h ▸ .nil⟩
  · obtain ⟨cs, vs, hgroup⟩ := exists_group h
    have hlength : vs.length < us.length := by
      obtain ⟨u, pre, rfl⟩ := hgroup.exists_append
      simp only [List.length_append, List.length_cons]
      omega
    obtain ⟨ds, hds⟩ := exists_means vs
    exact ⟨cs ++ ds, .group hgroup hds⟩
termination_by us.length

/-- The loop makes of units what they stand for. -/
theorem Means.unescape {us : List QuotedUnit} {cs : List Char} (h : Means us cs) :
    Escape.unescape (textAll us) = cs := by
  induction h with
  | nil => rw [textAll_nil, Escape.unescape]
  | group hgroup _ ih => rw [hgroup.unescape, ih]

/-- **The loop makes of units what they stand for,** and nothing else. -/
theorem means_iff {us : List QuotedUnit} {cs : List Char} :
    Means us cs ↔ unescape (textAll us) = cs := by
  refine ⟨Means.unescape, fun h => ?_⟩
  obtain ⟨ds, hds⟩ := exists_means us
  rwa [← h, hds.unescape]

/-! ### Where the loop stands -/

/-- Rounds of the loop on the text `cs` have written `out` and left `left`. -/
inductive Scans (cs : List Char) : List Char → List Char → Prop
  | start : Scans cs [] cs
  | next {out left : List Char} :
    Scans cs out left → left ≠ [] → Scans cs (out ++ (round left).1) (round left).2

/-- At each round, what is written and what is left to do make up the whole. -/
theorem Scans.unescape {cs out left : List Char} (h : Scans cs out left) :
    Escape.unescape cs = out ++ Escape.unescape left := by
  induction h with
  | start => rfl
  | next _ hne ih => rw [ih, unescape_round hne, List.append_assoc]

/-- The rounds lead to the end of the text. -/
theorem Scans.finish {cs out left : List Char} (h : Scans cs out left) :
    Scans cs (out ++ Escape.unescape left) [] := by
  by_cases hne : left = []
  · subst hne
    rwa [Escape.unescape, List.append_nil]
  · have hlength := length_round hne
    have hfinish := (h.next hne).finish
    rwa [List.append_assoc, ← unescape_round hne] at hfinish
termination_by left.length

/-- What is left is before one of the units, or before the second character of one that is no
backslash. -/
inductive Between (us : List QuotedUnit) : List Char → Prop
  | before (vs ws : List QuotedUnit) : us = vs ++ ws → Between us (textAll ws)
  | inside {vs ws : List QuotedUnit} {c : Char} {h : c ≠ '\n'} :
    us = vs ++ .escaped c h :: ws → c ≠ '\\' → Between us (c :: textAll ws)

/-- **A round ends at a unit, or inside of one.** -/
theorem Between.round {us : List QuotedUnit} {left : List Char} (h : Between us left)
    (hne : left ≠ []) : Between us (Escape.round left).2 := by
  cases h with
  | before vs ws hus =>
    -- the round takes the group that `ws` begins with
    have hws : ws ≠ [] := by
      rintro rfl
      exact hne rfl
    obtain ⟨cs, xs, hgroup⟩ := exists_group hws
    rcases hgroup.round with hround | ⟨c, hc, rfl, hbackslash, -, hround⟩
    · obtain ⟨u, pre, rfl⟩ := hgroup.exists_append
      rw [hround]
      exact .before (vs ++ u :: pre) xs (by rw [hus, List.append_assoc])
    · rw [hround]
      exact .inside hus hbackslash
  | @inside vs ws c hc hus hbackslash =>
    rw [round_plain hbackslash]
    exact .before (vs ++ [.escaped c hc]) ws (by rw [hus, List.append_assoc]; rfl)

/-- **The loop is always at a unit or inside of one,** by induction on its rounds. -/
theorem Scans.between {us : List QuotedUnit} {out left : List Char}
    (h : Scans (textAll us) out left) : Between us left := by
  induction h with
  | start => exact .before [] us rfl
  | next _ hne ih => exact ih.round hne

/-- **A backslash that the loop comes to** is the first character of a unit. -/
theorem Between.of_backslash {us : List QuotedUnit} {tail : List Char}
    (h : Between us ('\\' :: tail)) :
    ∃ vs c hc ws, us = vs ++ .escaped c hc :: ws ∧ tail = c :: textAll ws := by
  generalize hleft : '\\' :: tail = left at h
  cases h with
  | before vs ws hus =>
    rcases ws with _ | ⟨⟨c, hc⟩ | ⟨c, hc⟩, ws⟩
    · cases hleft
    · exact absurd (List.cons.inj hleft).1.symm hc.2
    · exact ⟨vs, c, hc, ws, hus, (List.cons.inj hleft).2⟩
  | inside _ hbackslash => exact absurd (List.cons.inj hleft).1.symm hbackslash

end Escape

open Escape

/-- **The search for the closing quote and the replacing of escapes agree.**  Between the quotes of
any lexeme of the quoted pattern there are units, in one way only, and the value of the token is
what these stand for, group by group.  The loop that makes it of the body goes through all of the
body, and each backslash that it comes to is the first character of a unit, with the other one after
it; so none of them is taken together with a character of the next unit, and none is left at the
end. -/
theorem unescape_units {cs lexeme rest : List Char}
    (h : Pattern.quoted.split cs = some (lexeme, rest)) :
    ∃ us, lexeme = '"' :: (textAll us ++ ['"']) ∧ (∀ vs, textAll vs = textAll us → vs = us) ∧
      Pattern.quoted.token? lexeme = some (.string, String.ofList (unescape (textAll us))) ∧
      (∀ out, Means us out ↔ unescape (textAll us) = out) ∧
      Scans (textAll us) (unescape (textAll us)) [] ∧
      ∀ out left, Scans (textAll us) out left →
        unescape (textAll us) = out ++ unescape left ∧
        ∀ tail, left = '\\' :: tail →
          ∃ vs c hc ws, us = vs ++ .escaped c hc :: ws ∧ tail = c :: textAll ws := by
  obtain ⟨body, rfl⟩ := Pattern.starts_of_split_quoted h
  obtain ⟨⟨a, b⟩, hclose, heq⟩ := Option.map_eq_some_iff.1 h
  obtain ⟨rfl, rfl⟩ := Prod.mk.inj heq
  obtain ⟨inner, hinner, rfl⟩ := Pattern.exists_of_closeQuote hclose
  obtain ⟨us, rfl⟩ := exists_of_mem hinner
  have htoken : Pattern.quoted.token? ('"' :: (textAll us ++ ['"'])) =
      some (.string, String.ofList (unescape (textAll us))) := by
    simp [Pattern.token?]
  refine ⟨us, rfl, fun vs hvs => textAll_injective hvs, htoken, fun out => means_iff,
    Scans.start.finish, fun out left hscans => ⟨hscans.unescape, fun tail htail => ?_⟩⟩
  subst htail
  exact hscans.between.of_backslash

/-- The text `"\x4\\\q"`, in which three backslashes follow one another. -/
def quotedRun : List Char := ['"', '\\', 'x', '4', '\\', '\\', '\\', 'q', '"']

/-- The first of the three takes the second along, and the third one is kept. -/
theorem unescape_units_run :
    Pattern.quoted.split quotedRun = some (quotedRun, []) ∧
      ∃ us, quotedRun = '"' :: (textAll us ++ ['"']) ∧ us.length = 4 ∧
        unescape (textAll us) = ['\x04', '\\', '\\', 'q'] ∧
        Means us ['\x04', '\\', '\\', 'q'] := by
  have hsplit : Pattern.quoted.split quotedRun = some (quotedRun, []) := by decide
  obtain ⟨us, hlexeme, hunique, -, hmeans, -⟩ := unescape_units hsplit
  let vs : List QuotedUnit := [.escaped 'x' (by decide), .plain '4' (by decide),
    .escaped '\\' (by decide), .escaped 'q' (by decide)]
  have hvs : textAll vs = textAll us := List.append_cancel_right (List.cons.inj hlexeme).2
  obtain rfl := hunique vs hvs
  have hvalue : unescape (textAll vs) = ['\x04', '\\', '\\', 'q'] := by decide +kernel
  exact ⟨hsplit, vs, hlexeme, rfl, hvalue, (hmeans _).2 hvalue⟩

end MonkeySyntax
