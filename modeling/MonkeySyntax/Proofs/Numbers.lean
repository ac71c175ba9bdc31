/-
# Numbers are exact

The value of a number token is a run of ASCII digits, of any length and with any zeros in front.
What it spells is a natural number, each digit counting ten times as much as the one after it
(`Numeral.spelt`), and a 64-bit integer is made of it exactly if it is below `2 ^ 63`:

| the digits spell | the number token is read as |
| --- | --- |
| at most `2 ^ 63 - 1` | an integer with that value |
| more | nothing, with one error that shows all of the digits |

So the integers in the program that is read from a text have the values that their tokens spell
(`numbers_exact`).  That a token consists of digits is known from where it comes from: every window
of a text is at tokens of the text (`Window.In`), and nodes have their tokens from what was read
(`Spells.nodes_from`), since that is a spelling of what was returned.
-/

import MonkeySyntax.Proofs.Joints
import MonkeySyntax.Proofs.WellFormed
import Mathlib.Data.Nat.Digits.Defs

namespace MonkeySyntax

/-! ### What digits spell -/

namespace Numeral

/-- The number that decimal digits spell. -/
def spelt (cs : List Char) : Nat := Nat.ofDigits 10 (cs.reverse.map fun c => c.toNat - '0'.toNat)

/-- Zeros in front do not count. -/
theorem spelt_zeros (n : Nat) (cs : List Char) : spelt (List.replicate n '0' ++ cs) = spelt cs := by
  rw [spelt, List.reverse_append, List.reverse_replicate, List.map_append, List.map_replicate]
  exact Nat.ofDigits_append_replicate_zero _

/-- Digits are added up from the first one on. -/
theorem value_eq_spelt (cs : List Char) : value cs = spelt cs := by
  rw [spelt, Nat.ofDigits_eq_foldr, List.foldr_map, List.foldr_reverse, value]
  congr 1
  funext n c
  exact Nat.add_comm _ _

variable {s : String}

/-- A run of digits is the number that they spell. -/
theorem integer?_of_digits (h : Pattern.IsRun Char.isDigit Char.isDigit s.toList) :
    integer? s.toList = some (spelt s.toList : Int) := by
  obtain ⟨c, tail, hs, hc, htail⟩ := h
  have hnatural : natural? s.toList = some (spelt s.toList) := by
    rw [natural?, if_pos, value_eq_spelt]
    rw [hs]
    exact ⟨List.cons_ne_nil c tail, List.all_eq_true.2 (List.forall_mem_cons.2 ⟨hc, htail⟩)⟩
  have hdash : c ≠ '-' := fun h => by simp [h] at hc
  have hplus : c ≠ '+' := fun h => by simp [h] at hc
  unfold integer?
  split
  · exact absurd (List.cons.inj (hs.symm.trans ‹_›)).1 hdash
  · exact absurd (List.cons.inj (hs.symm.trans ‹_›)).1 hplus
  · rw [hnatural]
    rfl

/-- Digits that spell a number in range are read as that number. -/
theorem int64?_of_le (h : Pattern.IsRun Char.isDigit Char.isDigit s.toList)
    (hle : spelt s.toList ≤ 2 ^ 63 - 1) :
    ∃ v : Int64, int64? s = some v ∧ v.toInt = spelt s.toList := by
  refine ⟨.ofInt (spelt s.toList), ?_, Int64.toInt_ofInt_of_le (by omega) (by omega)⟩
  rw [int64?, integer?_of_digits h]
  refine if_pos ⟨?_, ?_⟩
  · rw [Int64.toInt_minValue]
    omega
  · rw [Int64.toInt_maxValue]
    omega

/-- Digits that spell a number out of range are not read. -/
theorem int64?_of_lt (h : Pattern.IsRun Char.isDigit Char.isDigit s.toList)
    (hlt : 2 ^ 63 - 1 < spelt s.toList) : int64? s = none := by
  rw [int64?, integer?_of_digits h]
  refine if_neg fun hrange => ?_
  have hmax := hrange.2
  rw [Int64.toInt_maxValue] at hmax
  omega

/-- **Digits that are read as an integer spell it.** -/
theorem toInt_of_int64? (h : Pattern.IsRun Char.isDigit Char.isDigit s.toList) {v : Int64}
    (hv : int64? s = some v) : v.toInt = spelt s.toList ∧ spelt s.toList ≤ 2 ^ 63 - 1 := by
  by_cases hle : spelt s.toList ≤ 2 ^ 63 - 1
  · obtain ⟨w, hw, hvalue⟩ := int64?_of_le h hle
    obtain rfl := Option.some.inj (hv.symm.trans hw)
    exact ⟨hvalue, hle⟩
  · rw [int64?_of_lt h (Nat.lt_of_not_le hle)] at hv
    cases hv

end Numeral

/-! ### The tokens of a text -/

namespace Cursor

/-- What comes later comes. -/
theorem tokens_next_subset (c : Cursor) : c.next.2.tokens ⊆ c.tokens := by
  by_cases h : c.next.1.kind = .eof
  · rw [tokens_congr (next_of_eof h)]
    exact List.Subset.refl _
  · rw [tokens_of_ne_eof h]
    exact List.subset_cons_self _ _

/-- **Every token of a text is written as its kind is.** -/
theorem written_of_mem_tokens {c : Cursor} {t : Token} (ht : t ∈ c.tokens) : t.Written := by
  fun_induction tokens c with
  | case1 c h =>
    obtain rfl := List.mem_singleton.1 ht
    exact written_next c
  | case2 c h ih =>
    obtain rfl | ht := List.mem_cons.1 ht
    · exact written_next c
    · exact ih ht

end Cursor

/-- The window is at tokens of the text after `c`. -/
structure Window.In (w : Window Cursor) (c : Cursor) : Prop where
  current : w.current ∈ c.tokens
  peek : w.peek ∈ c.tokens
  source : w.source.tokens ⊆ c.tokens

namespace Window.In

variable {c : Cursor} {v w : Window Cursor}

/-- A window starts in its text. -/
theorem start (c : Cursor) : (Window.start c).In c where
  current := c.next_mem_tokens
  peek := c.tokens_next_subset c.next.2.next_mem_tokens
  source _ ht := c.tokens_next_subset (c.next.2.tokens_next_subset ht)

/-- The next window is in the same text. -/
theorem advance (h : w.In c) : w.advance.In c where
  current := h.peek
  peek := h.source w.source.next_mem_tokens
  source _ ht := h.source (w.source.tokens_next_subset ht)

/-- Moving on, a window stays in its text. -/
theorem onward (h : w.In c) (hv : w.Onward v) : v.In c := by
  induction hv with
  | refl => exact h
  | step _ ih => exact ih h.advance

/-- What a window moves on over is in its text. -/
theorem reads {ts : List Token} (h : w.In c) (hts : w.Reads ts v) : ts ⊆ c.tokens := by
  induction hts with
  | nil => exact List.nil_subset _
  | cons _ ih => exact List.cons_subset.2 ⟨h.current, ih h.advance⟩

end Window.In

/-! ### The tokens of nodes -/

/-- The token of a node. -/
def Node.token : Node → Token
  | .expr e => e.token
  | .stmt s => s.token
  | .block b => b.token
  | .name n => n.token

/-- The nodes `ns` have their tokens from `ts`. -/
def Node.From (ns : List Node) (ts : List Token) : Prop := ∀ x ∈ ns, x.token ∈ ts

namespace Node.From

variable {x : Node} {ns ms : List Node} {ts us : List Token}

/-- No nodes have tokens from anywhere. -/
theorem nil (ts : List Token) : From [] ts := List.forall_mem_nil _

/-- One node more, whose token is among them. -/
theorem cons (hx : x.token ∈ ts) (h : From ns ts) : From (x :: ns) ts :=
  List.forall_mem_cons.2 ⟨hx, h⟩

/-- A single node has its token where that is. -/
theorem one (hx : x.token ∈ ts) : From [x] ts := cons hx (nil ts)

/-- Nodes and other nodes with tokens from one list. -/
theorem append (h : From ns ts) (k : From ms ts) : From (ns ++ ms) ts :=
  List.forall_mem_append.2 ⟨h, k⟩

/-- Tokens from a list are tokens from one with another token before it. -/
theorem skip (t : Token) (h : From ns ts) : From ns (t :: ts) := fun x hx => .tail _ (h x hx)

/-- Tokens from a list are tokens from one with others after it. -/
theorem before (us : List Token) (h : From ns ts) : From ns (ts ++ us) :=
  fun x hx => List.mem_append_left us (h x hx)

/-- Tokens from a list are tokens from one with others before it. -/
theorem after (us : List Token) (h : From ns ts) : From ns (us ++ ts) :=
  fun x hx => List.mem_append_right us (h x hx)

end Node.From

open MonkeySyntax.Action MonkeySyntax.Parsing MonkeySyntax.Spelling

/-- Further parameters have their tokens from their spelling. -/
theorem Spelling.MoreNames.nodes_from {ns : List Identifier} {ts : List Token}
    (h : MoreNames ns ts) : Node.From (ns.map .name) ts := by
  induction h with
  | nil => exact .nil []
  | cons _ _ _ ih => exact .cons (.tail _ (.head _)) ((ih.skip _).skip _)

/-- Parameters have their tokens from their spelling. -/
theorem Spelling.Names.nodes_from {ns : List Identifier} {ts : List Token} (h : Names ns ts) :
    Node.From (ns.map .name) ts := by
  cases h with
  | nil => exact .nil []
  | cons _ h => exact .cons (.head _) (h.nodes_from.skip _)

/-- **Nodes have their tokens from the spelling.** -/
theorem Spells.nodes_from {L : Leeway} {f : Form} {ts : List Token} {d : Nat}
    (h : Spells L f ts d) : Node.From f.nodes ts := by
  induction h with
  | identifier => exact .cons (.head _) (.one (.head _))
  | integer | string | boolean | bareReturn => exact .one (.head _)
  | prefixOp _ _ _ ih | returnValue _ _ ih => exact .cons (.head _) (ih.skip _)
  | expression _ ih => exact .cons (.head _) ih
  | infixOp _ _ _ _ ihl ihr =>
    exact .cons (List.mem_append_right _ (.head _)) ((ihl.before _).append ((ihr.skip _).after _))
  | call _ _ _ _ ihl ihr | index _ _ _ _ ihl ihr =>
    exact .cons (List.mem_append_right _ (.head _))
      ((ihl.before _).append (((ihr.before _).skip _).after _))
  | conditional _ _ _ ihe ihb =>
    exact .cons (.head _) (((ihe.before _).skip _).append ((ihb.after _).skip _))
  | alternative _ _ _ _ _ ihe ihb iha =>
    exact .cons (.head _) (((ihe.before _).skip _).append
      ((((ihb.before _).after _).skip _).append ((((iha.skip _).after _).after _).skip _)))
  | function _ _ _ hn _ ih =>
    exact .cons (.head _)
      ((((hn.nodes_from.before _).skip _).skip _).append ((((ih.skip _).after _).skip _).skip _))
  | array _ _ _ ih | hash _ _ _ ih | block _ _ _ ih =>
    exact .cons (.head _) ((ih.before _).skip _)
  | grouped _ _ _ ih => exact (ih.before _).skip _
  | junk _ _ ih => exact ih.after _
  | noExprs | noMore | noPairs | noStmts => exact .nil []
  | exprs _ _ ihe ihs => exact (ihe.before _).append (ihs.after _)
  | more _ _ _ ihe ihs => exact ((ihe.before _).append (ihs.after _)).skip _
  | stmts _ _ _ ihs ihb => exact (ihs.before _).append ((ihb.after _).after _)
  | lastPair _ _ _ ihk ihv =>
    exact (ihk.before _).append (((ihv.append (.nil _)).skip _).after _)
  | pairs _ _ _ _ _ ihk ihv ihs =>
    exact (ihk.before _).append
      ((((ihv.before _).append ((ihs.skip _).after _)).skip _).after _)
  | letBinding _ _ _ _ ih =>
    exact .cons (.head _) (.cons (.tail _ (.head _)) (((ih.skip _).skip _).skip _))

/-! ### Number tokens -/

/-- What is read at a number token: the integer that its value spells, or an error. -/
theorem Parsing.run_primary_of_integer {σ : Type} [TokenSource σ] {p : Parser σ}
    (h : p.current.kind = .integer) :
    primary.run p =
      match Numeral.int64? p.current.value with
      | some v => (some (.integer p.current v), p)
      | none => (none, p.report ⟨.integerRange p.current.value, p.current.start⟩) := by
  simp only [primary, primaryAction, run_current_bind, h]
  cases Numeral.int64? p.current.value with
  | none => rfl
  | some v => rfl

/-- **Integers are exact.**  Each integer in the program that a text is read as has a token of the
text, which consists of digits, however many and with any zeros in front, and its value is what they
spell; so it is at least zero and at most `2 ^ 63 - 1`.  And wherever in the text a parser is at a
number token, whatever it reads by and whatever went wrong before, it reads an integer with the
value that the digits spell if that is at most `2 ^ 63 - 1`, and otherwise has no result and one
more error, which shows all of the digits and where the token starts. -/
theorem numbers_exact (text : String) (file : Option String) :
    (∀ (t : Token) (v : Int64), .expr (.integer t v) ∈ (parseText text file).1.nodes →
      t ∈ (Cursor.ofText text file).tokens ∧
        Pattern.IsRun Char.isDigit Char.isDigit t.value.toList ∧
        v.toInt = Numeral.spelt t.value.toList ∧ 0 ≤ v.toInt ∧ v.toInt ≤ 2 ^ 63 - 1) ∧
    ∀ p : Parser Cursor, (Window.start (Cursor.ofText text file)).Onward p.window →
      p.current.kind = .integer →
        p.current ∈ (Cursor.ofText text file).tokens ∧
        Pattern.IsRun Char.isDigit Char.isDigit p.current.value.toList ∧
        (Numeral.spelt p.current.value.toList ≤ 2 ^ 63 - 1 →
          ∃ v : Int64, v.toInt = Numeral.spelt p.current.value.toList ∧
            primary.run p = (some (.integer p.current v), p)) ∧
        (2 ^ 63 - 1 < Numeral.spelt p.current.value.toList →
          primary.run p =
            (none, p.report ⟨.integerRange p.current.value, p.current.start⟩)) := by
  have hstart := Window.In.start (Cursor.ofText text file)
  refine ⟨fun t v hmem => ?_, fun p hp hkind => ?_⟩
  · -- the program is spelled by tokens of the text, and nodes have their tokens from there
    obtain ⟨-, ts, d, hreads, -, hspells⟩ :=
      statements_stand (Parser.start (Cursor.ofText text file)) rfl
    have ht : t ∈ (Cursor.ofText text file).tokens :=
      hstart.reads hreads (hspells.nodes_from _ hmem)
    obtain ⟨hkind, hv⟩ := hspells.wellFormed _ hmem
    have hdigits := (Cursor.written_of_mem_tokens ht).number hkind
    obtain ⟨hvalue, hle⟩ := Numeral.toInt_of_int64? hdigits hv
    exact ⟨ht, hdigits, hvalue, by omega, by omega⟩
  · have ht : p.current ∈ (Cursor.ofText text file).tokens := (hstart.onward hp).current
    have hdigits := (Cursor.written_of_mem_tokens ht).number hkind
    have hrun := run_primary_of_integer hkind
    refine ⟨ht, hdigits, fun hle => ?_, fun hlt => ?_⟩
    · obtain ⟨v, hv, hvalue⟩ := Numeral.int64?_of_le hdigits hle
      rw [hv] at hrun
      exact ⟨v, hvalue, hrun⟩
    · rw [Numeral.int64?_of_lt hdigits hlt] at hrun
      exact hrun

/-- The largest number is read behind zeros, the one after it is not read. -/
example :
    (parseText "009223372036854775807; 9223372036854775808" none).2.errors.map (·.cause) =
      [.integerRange "9223372036854775808"] := by decide +kernel

end MonkeySyntax
