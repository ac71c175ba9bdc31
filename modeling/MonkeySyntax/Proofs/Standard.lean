/-
# The tables of Monkey, read backwards

Which kinds of token a rule of the standard grammar belongs to, and with which power.

| rule | kinds | power |
| --- | --- | --- |
| primary | names, literals | |
| operator | `!` `-` | |
| grouping, array, hash | `(`, `[`, `{` | |
| conditional, function | `if`, `fn` | |
| binary | the eight operators | from equals to product |
| call, index | `(`, `[` | call, index |
-/

import MonkeySyntax.Parsing.Expression

namespace MonkeySyntax

/-- The kinds of token that start an expression under a rule. -/
def PrefixRule.kinds : PrefixRule → List Kind
  | .primary => [.identifier, .integer, .string, .keyword .trueWord, .keyword .falseWord]
  | .operator => [.mark .not, .mark .dash]
  | .grouping => [.mark .openParen]
  | .conditional => [.keyword .ifWord]
  | .function => [.keyword .fnWord]
  | .array => [.mark .openBracket]
  | .hash => [.mark .openCurly]

namespace Grammar

variable {k : Kind} {q : Power}

/-- The kinds of tokens that a prefix rule is for. -/
theorem mem_kinds {rule : PrefixRule} (h : standard.prefixRule k = some rule) :
    k ∈ rule.kinds := by
  simp only [standard] at h
  split at h <;> cases h <;> simp [PrefixRule.kinds]

/-- A binary operator binds more tightly than nothing and less tightly than a prefix. -/
theorem rank_of_binary (h : standard.infixRule k = some (q, .binary)) :
    0 < q.rank ∧ q.rank < Power.prefixed.rank := by
  simp only [standard] at h
  split at h <;> cases h <;> decide

/-- Every binary operator is a mark. -/
theorem mark_of_binary (h : standard.infixRule k = some (q, .binary)) : ∃ m, k = .mark m := by
  simp only [standard] at h
  split at h <;> cases h <;> exact ⟨_, rfl⟩

/-- Only a bracket calls. -/
theorem kind_of_call (h : standard.infixRule k = some (q, .call)) :
    k = .mark .openParen ∧ q = .call := by
  simp only [standard] at h
  split at h <;> cases h
  exact ⟨rfl, rfl⟩

/-- Only a square bracket indexes. -/
theorem kind_of_index (h : standard.infixRule k = some (q, .index)) :
    k = .mark .openBracket ∧ q = .index := by
  simp only [standard] at h
  split at h <;> cases h
  exact ⟨rfl, rfl⟩

/-- A token binds as tightly as its infix rule says. -/
theorem power_of_infixRule {g : Grammar} {rule : InfixRule} (h : g.infixRule k = some (q, rule)) :
    g.power k = q := by
  rw [power, h]
  rfl

end Grammar

namespace Parsing

variable {σ : Type} {bp : Power} {p : Parser σ}

/-- Where an extension goes on, the next token has a rule that binds more tightly. -/
theorem infixRule_of_nextRule {rule : InfixRule} (h : nextRule bp p = some rule) :
    ∃ q, p.grammar.infixRule p.peek.kind = some (q, rule) ∧ bp < q := by
  simp only [nextRule] at h
  split at h
  · cases h
  · split at h
    · rename_i q r hr
      split at h
      · rename_i hq
        cases h
        exact ⟨q, hr, hq⟩
      · cases h
    · cases h

/-- Where the next token has a rule that binds more tightly, an extension goes on, unless that token
is a `;`. -/
theorem nextRule_of_lt {q : Power} {rule : InfixRule} (hs : p.peek.kind ≠ .mark .semicolon)
    (h : p.grammar.infixRule p.peek.kind = some (q, rule)) (hq : bp < q) :
    nextRule bp p = some rule := by
  rw [nextRule, if_neg hs, h]
  exact if_pos hq

/-- An extension ends where the next token is a `;` or binds no more tightly. -/
theorem nextRule_eq_none_iff : nextRule bp p = none ↔
    p.peek.kind = .mark .semicolon ∨ (p.grammar.power p.peek.kind).rank ≤ bp.rank := by
  by_cases hs : p.peek.kind = .mark .semicolon
  · simp [nextRule, hs]
  · rw [nextRule, if_neg hs, or_iff_right hs]
    split
    · rename_i q rule hrule
      rw [Grammar.power_of_infixRule hrule, ite_eq_right_iff, ← Nat.not_lt]
      exact imp_congr_right fun _ => iff_of_false (Option.some_ne_none rule) id
    · rename_i hrule
      rw [Grammar.power, hrule]
      exact iff_of_true rfl (Nat.zero_le _)

/-- Where the next token has a rule of Monkey that binds more tightly, an extension goes on. -/
theorem nextRule_of_infixRule {q : Power} {rule : InfixRule} (hg : p.grammar = .standard)
    (h : Grammar.standard.infixRule p.peek.kind = some (q, rule)) (hq : bp < q) :
    nextRule bp p = some rule := by
  refine nextRule_of_lt (fun hs => ?_) (hg ▸ h) hq
  rw [hs] at h
  cases h

/-- Where the next token binds no more tightly, an extension ends. -/
theorem nextRule_eq_none (hg : p.grammar = .standard)
    (h : (Grammar.standard.power p.peek.kind).rank ≤ bp.rank) : nextRule bp p = none :=
  nextRule_eq_none_iff.2 (.inr (hg ▸ h))

/-- Where an extension ends, the next token binds no more tightly. -/
theorem rank_le_of_nextRule (hg : p.grammar = .standard) (h : nextRule bp p = none) :
    (p.grammar.power p.peek.kind).rank ≤ bp.rank := by
  rcases nextRule_eq_none_iff.1 h with hs | hle
  · rw [hg, hs]
    exact Nat.zero_le _
  · exact hle

end Parsing

end MonkeySyntax
