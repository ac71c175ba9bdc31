/-
# No closing bracket of a block is lost

A failed statement may stop anywhere: in a hash, in a block inside of it, or at the `}` that ends
the block it stands in.  Recovery goes on from there, and must not go past a `}` that the block
needs.  It does not, and the reason is a count of what is due: whatever is read leaves due what is
due before it (`owing`), so inside of a block there is always something due.  Where brackets balance
nothing is due at the end of the input, and no block comes to that end (`no_block_unterminated`).
-/

import MonkeySyntax.Proofs.Discipline.Expressions
import MonkeySyntax.Proofs.Owes

namespace MonkeySyntax

namespace Parsing

/-- A program is read to its end without a block that is cut off. -/
theorem statements_owe {p : Parser Stream} (hp : p.Owes 0 0) : p.statements.2.Owes 0 0 := by
  rw [Parser.owes_iff] at hp ⊢
  exact owing.keeps_statements (fun _ _ h => h.advance_top) (fun _ _ h => h.advance_top) hp

end Parsing

/-- **Where curly brackets balance, no block is cut off.**  However malformed a list of tokens is
otherwise, if no token before its last is an end of input and its curly brackets balance, then no
error says that a `}` was expected. -/
theorem no_block_unterminated {ts : List Token} {last : Token} (hts : ∀ t ∈ ts, t.kind ≠ .eof)
    (hb : Balances (ts ++ [last])) :
    ∀ d ∈ (parse (ts ++ [last])).2.errors, ∀ k,
      d.cause ≠ .unexpectedToken (.mark .closeCurly) k := by
  have hcloses := Window.closes_start hts hb
  have hstart : (Parser.start (Stream.ofList (ts ++ [last]))).Owes 0 0 :=
    ⟨rfl, hcloses, by simp [Parser.start], rfl, hcloses.due_nonneg _ (.refl _)⟩
  exact (Parsing.statements_owe hstart).terminated

/-- `fn() { let { ] } = }`, of which only the brackets are in order. -/
def brokenFunction : List Token :=
  [⟨.keyword .fnWord, "fn", .null⟩, ⟨.mark .openParen, "(", .null⟩,
    ⟨.mark .closeParen, ")", .null⟩, ⟨.mark .openCurly, "\x7b", .null⟩,
    ⟨.keyword .letWord, "let", .null⟩, ⟨.mark .openCurly, "\x7b", .null⟩,
    ⟨.mark .closeBracket, "]", .null⟩, ⟨.mark .closeCurly, "\x7d", .null⟩,
    ⟨.mark .assign, "=", .null⟩, ⟨.mark .closeCurly, "\x7d", .null⟩]

/-- The hypotheses of `no_block_unterminated` are satisfiable by a text that has errors. -/
theorem no_block_unterminated_brokenFunction :
    Balances (brokenFunction ++ [.eof .null]) ∧
      (parse (brokenFunction ++ [.eof .null])).2.errors ≠ [] ∧
      ∀ d ∈ (parse (brokenFunction ++ [.eof .null])).2.errors, ∀ k,
        d.cause ≠ .unexpectedToken (.mark .closeCurly) k := by
  have hbalances : Balances (brokenFunction ++ [.eof .null]) := by decide
  exact ⟨hbalances, by decide +kernel, no_block_unterminated (by decide) hbalances⟩

end MonkeySyntax
