/-
# Only kinds matter

Which program a list of tokens is does not depend on their texts or their places.  Other tokens of
the same kinds give the same program with those tokens in it, and the same errors about them: `f`
says what each token is replaced by.

| in the first run | in the second |
| --- | --- |
| a token `t` of a node | `f t` |
| a name, an operator, what a string stands for | the value of `f t` |
| what a number stands for | the same, as `f` keeps it |
| an error about `t`: its position, the text it quotes | the error about `f t` |
-/

import Mathlib.Data.List.Find
import MonkeySyntax.Proofs.Pairing.Programs
import MonkeySyntax.Tree.Equality

namespace MonkeySyntax

namespace Stream

variable {f : Token → Token} {ts : List Token}

/-- The last end of the input in a list, if there is one, is what follows the list. -/
theorem find?_reverse (h : ∃ t ∈ ts, t.kind = .eof) :
    ts.reverse.find? (·.kind = .eof) = some (finalOf ts) := by
  have hsome : (ts.reverse.find? (·.kind = .eof)).isSome := by simpa using h
  obtain ⟨t, ht⟩ := Option.isSome_iff_exists.1 hsome
  rw [finalOf, ht]

/-- What follows a list with an end of the input is in it. -/
theorem finalOf_mem (h : ∃ t ∈ ts, t.kind = .eof) : finalOf ts ∈ ts :=
  List.mem_reverse.1 (List.mem_of_find?_eq_some (find?_reverse h))

/-- The list with other tokens ends in what its end is replaced by. -/
theorem finalOf_map (h : ∃ t ∈ ts, t.kind = .eof) (hkind : ∀ t ∈ ts, (f t).kind = t.kind) :
    finalOf (ts.map f) = f (finalOf ts) := by
  have hcongr : ∀ t ∈ ts.reverse,
      ((fun t : Token => decide (t.kind = .eof)) ∘ f) t = decide (t.kind = .eof) := fun t ht => by
    rw [Function.comp_apply, hkind t (List.mem_reverse.1 ht)]
  have hfind : (ts.map f).reverse.find? (·.kind = .eof) = some (f (finalOf ts)) := by
    rw [← List.map_reverse, List.find?_map, List.find?_congr hcongr, find?_reverse h,
      Option.map_some]
  rw [finalOf, hfind]

end Stream

/-- **Parsing depends on kinds only.**  If `f` keeps the kinds of the tokens and what the integers
among them stand for, the tokens under `f` are the same program, with the tokens of its nodes and
its texts replaced, and the errors about them are the same in the same order. -/
theorem parse_map {f : Token → Token} {ts : List Token} (heof : ∃ t ∈ ts, t.kind = .eof)
    (hkind : ∀ t ∈ ts, (f t).kind = t.kind)
    (hint : ∀ t ∈ ts, t.kind = .integer → Numeral.int64? (f t).value = Numeral.int64? t.value) :
    (parse (ts.map f)).1 = (parse ts).1.retoken f ∧
      ∃ faults : List (Complaint × Token), (∀ x ∈ faults, x.2 ∈ ts) ∧
        (parse ts).2.errors = faults.map (fun x => x.1.about x.2) ∧
        (parse (ts.map f)).2.errors = faults.map fun x => x.1.about (f x.2) := by
  have hfinal := Stream.finalOf_map heof hkind
  -- what the two streams hand out
  have htake : ∀ n, (TokenSource.take n (Stream.ofList ts)).1 =
      (ts ++ List.replicate n (Stream.finalOf ts)).take n := Stream.take_eq _
  have htake' : ∀ n, (TokenSource.take n (Stream.ofList (ts.map f))).1 =
      (TokenSource.take n (Stream.ofList ts)).1.map f := fun n => by
    rw [htake, List.map_take, List.map_append, List.map_replicate, ← hfinal]
    exact Stream.take_eq _ n
  have hseen : ∀ n, ∀ t ∈ (TokenSource.take n (Stream.ofList ts)).1, t ∈ ts := fun n t ht => by
    rw [htake] at ht
    rcases List.mem_append.1 (List.mem_of_mem_take ht) with hmem | hmem
    · exact hmem
    · rw [List.eq_of_mem_replicate hmem]
      exact Stream.finalOf_mem heof
  have hprogram := Pairing.program_answering hkind hint hseen htake'
  exact ⟨hprogram.1, hprogram.2.complains⟩

/-- The tokens of `let a = 1; )`, none of them placed in a text. -/
def strayParen : List Token :=
  [⟨.keyword .letWord, "let", .null⟩, ⟨.identifier, "a", .null⟩, ⟨.mark .assign, "=", .null⟩,
    ⟨.integer, "1", .null⟩, ⟨.mark .semicolon, ";", .null⟩, ⟨.mark .closeParen, ")", .null⟩,
    .eof .null]

/-- Another text for some tokens: `01` for `1`, and `b` for `a`. -/
def respelled (t : Token) : Token :=
  match t.kind, t.value with
  | .integer, "1" => { t with value := "01" }
  | .identifier, "a" => { t with value := "b" }
  | _, _ => t

/-- The hypotheses of `parse_map` are satisfiable by a text with an error in it: respelled, the
binding is `let b = 01` with the value 1, and the error is still about the stray `)`. -/
theorem parse_map_respelled :
    (∃ t ∈ strayParen, t.kind = .eof) ∧ (∀ t ∈ strayParen, (respelled t).kind = t.kind) ∧
      (∀ t ∈ strayParen, t.kind = .integer →
        Numeral.int64? (respelled t).value = Numeral.int64? t.value) ∧
      (parse (strayParen.map respelled)).1.body =
        [.letBinding ⟨.keyword .letWord, "let", .null⟩ ⟨⟨.identifier, "b", .null⟩, "b"⟩
          (.integer ⟨.integer, "01", .null⟩ 1)] ∧
      (parse (strayParen.map respelled)).2.errors =
        [⟨.noPrefixRule (.mark .closeParen), .null⟩] ∧
      (parse (strayParen.map respelled)).1 = (parse strayParen).1.retoken respelled ∧
      ∃ faults : List (Complaint × Token), (∀ x ∈ faults, x.2 ∈ strayParen) ∧
        (parse strayParen).2.errors = faults.map (fun x => x.1.about x.2) ∧
        (parse (strayParen.map respelled)).2.errors =
          faults.map fun x => x.1.about (respelled x.2) := by
  have heof : ∃ t ∈ strayParen, t.kind = .eof := by decide
  have hkind : ∀ t ∈ strayParen, (respelled t).kind = t.kind := by decide
  have hint : ∀ t ∈ strayParen, t.kind = .integer →
      Numeral.int64? (respelled t).value = Numeral.int64? t.value := by decide +kernel
  refine ⟨heof, hkind, hint, by decide +kernel, by decide +kernel, ?_⟩
  exact parse_map heof hkind hint

end MonkeySyntax
