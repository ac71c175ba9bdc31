/-
# Two runs through programs

Two runs that are at the same place read the same statements up to where the first run ends
(`statements_alike`).  From there on the second may have more to read.

For runs on sources that answer alike, up to tokens of the same kind, that place is the end of the
input for both (`Pairing.answering`, `Pairing.program_answering`).
-/

import MonkeySyntax.Proofs.Pairing.Expressions

namespace MonkeySyntax
namespace Pairing

open MonkeySyntax.Action MonkeySyntax.Parsing

variable {σ τ : Type} [TokenSource σ] [TokenSource τ]

/-- The first run is at its end, and the second at the same place. -/
def Finished (P : Pairing σ τ) (q : Parser σ) (q' : Parser τ) : Prop :=
  P.Abreast q q' ∧ q.current.kind = .eof ∨
    ∃ p p', P.Abreast p p' ∧ P.parts p.window p'.window ∧ q = p.advance ∧ q' = p'.advance

variable {P : Pairing σ τ} {p : Parser σ} {p' : Parser τ}

/-- **Up to the end of the first run both read the same statements.** -/
theorem statements_alike (hp : P.Abreast p p') :
    P.Lost p.statements.2 ∨ ∃ q', P.Finished p.statements.2 q' ∧
      p'.statements = (p.statements.1.map P.stmt ++ q'.statements.1, q'.statements.2) := by
  induction hn : p.window.left using Nat.strongRecOn generalizing p p' with
  | ind n ih =>
    subst hn
    by_cases he : p.current.kind = .eof
    · rw [Parser.statements_of_eof he]
      exact .inr ⟨p', .inl ⟨hp, he⟩, rfl⟩
    · have he' : p'.current.kind ≠ .eof := by rwa [hp.current_kind]
      -- what follows a statement, whether it was read or dropped
      have hrest : ∀ (x : Option Stmt) (q : Parser σ) (q' : Parser τ),
          (statement expression).run p = (x, q) →
          (statement expression).run p' = (x.map P.stmt, q') → P.Abreast q q' →
          P.Lost p.statements.2 ∨ ∃ r', P.Finished p.statements.2 r' ∧
            p'.statements = (p.statements.1.map P.stmt ++ r'.statements.1, r'.statements.2) := by
        intro x q q' hr hr' hq
        have honward := (statement expression).onward p
        rw [hr] at honward
        have hlists : (x.map P.stmt).toList = x.toList.map P.stmt := by cases x <;> rfl
        rw [Parser.statements_of_run he hr, Parser.statements_of_run he' hr', hlists]
        rcases P.step hq.meets with hmeets | hparts
        · refine (ih _ (honward.left_advance_lt he) (hq.advance hmeets) rfl).imp_right ?_
          rintro ⟨r', hfinished, hstatements⟩
          exact ⟨r', hfinished, by rw [hstatements, List.map_append, List.append_assoc]⟩
        · have heof : q.advance.current.kind = .eof := P.parts_peek hparts
          rw [Parser.statements_of_eof heof]
          refine .inr ⟨q'.advance, .inr ⟨q, q', hq, hparts, rfl, rfl⟩, ?_⟩
          rw [List.append_nil]
      rcases (tracks_statement tracks_expression).runs p p' hp with ⟨hs, hne⟩ | hagree
      · rcases hr : (statement expression).run p with ⟨x, q⟩
        rw [hr] at hne
        rw [Parser.statements_of_run he hr]
        have hleads : q.Leads q.advance.statements.2 :=
          (Parser.Leads.advance q).trans (Law.frame.kept_statements q.advance)
        exact .inl ⟨hs, hleads.errors_ne_nil hne⟩
      · rcases hagree.outcomes with ⟨q, q', hr, hr', hq⟩ | ⟨s, q, q', hr, hr', hq⟩
        · exact hrest none q q' hr hr' hq
        · exact hrest (some s) q q' hr hr' hq

end Pairing

/-! ### Sources that answer alike -/

/-- The current token, the next one, and `n` more. -/
def Window.upcoming {σ : Type} [TokenSource σ] (w : Window σ) (n : Nat) : List Token :=
  w.current :: w.peek :: (TokenSource.take n w.source).1

section

variable {σ τ : Type} [TokenSource σ] [TokenSource τ]

/-- What comes after a step comes after the first of what came before it. -/
theorem Window.upcoming_advance (w : Window σ) (n : Nat) :
    w.advance.upcoming n = (w.upcoming (n + 1)).tail := rfl

/-- Two runs of which the second finds the tokens of the first under `f`, for ever. -/
def Pairing.answering (f : Token → Token) (seen : Token → Prop)
    (hkind : ∀ t, seen t → (f t).kind = t.kind)
    (hint : ∀ t, seen t → t.kind = .integer →
      Numeral.int64? (f t).value = Numeral.int64? t.value)
    (earlier : List Diagnostic) : Pairing σ τ where
  swap := f
  seen := seen
  earlier := earlier
  strict := False
  grammar := .standard
  meets w v := ∀ n, (∀ t ∈ w.upcoming n, seen t) ∧ v.upcoming n = (w.upcoming n).map f
  parts _ _ := False
  kind_swap := hkind _
  int64_swap := hint _
  prefixRule_eq _ := rfl
  infixRule_eq _ := rfl
  seen_current h := (h 0).1 _ (List.mem_cons_self ..)
  current_eq h := (List.cons.inj (h 0).2).1
  step {w v} h := by
    refine .inl fun n => ⟨fun t ht => ?_, ?_⟩
    · rw [Window.upcoming_advance] at ht
      exact (h (n + 1)).1 t (List.mem_of_mem_tail ht)
    · rw [Window.upcoming_advance, Window.upcoming_advance, (h (n + 1)).2, List.map_tail]
  parts_current := False.elim
  parts_peek := False.elim
  parts_strict := False.elim
  parts_block _ _ := id

/-- **Two runs that find the same kinds of token** read the same program from their tokens, and are
at the same place at its end. -/
theorem Pairing.statements_answering {f : Token → Token} {seen : Token → Prop}
    {hkind : ∀ t, seen t → (f t).kind = t.kind}
    {hint : ∀ t, seen t → t.kind = .integer →
      Numeral.int64? (f t).value = Numeral.int64? t.value}
    {earlier : List Diagnostic} {p : Parser σ} {p' : Parser τ}
    (hp : (answering f seen hkind hint earlier).Abreast p p') :
    p'.statements.1 = Stmt.mapAll f (fun t _ => (f t).value) p.statements.1 ∧
      (answering f seen hkind hint earlier).Abreast p.statements.2 p'.statements.2 := by
  rcases statements_alike hp with ⟨hstrict, -⟩ | ⟨q', ⟨hq, he⟩ | ⟨_, _, _, hparts, _⟩, hrest⟩
  · exact hstrict.elim
  · have he' : q'.current.kind = .eof := by rw [hq.current_kind, he]
    rw [Parser.statements_of_eof he', List.append_nil] at hrest
    rw [hrest, Stmt.mapAll_eq]
    exact ⟨rfl, hq⟩
  · exact hparts.elim

/-- **Sources that answer alike,** up to tokens of the same kind, hold the same program. -/
theorem Pairing.program_answering {f : Token → Token} {seen : Token → Prop}
    (hkind : ∀ t, seen t → (f t).kind = t.kind)
    (hint : ∀ t, seen t → t.kind = .integer →
      Numeral.int64? (f t).value = Numeral.int64? t.value)
    {s : σ} {s' : τ} (hseen : ∀ n, ∀ t ∈ (TokenSource.take n s).1, seen t)
    (h : ∀ n, (TokenSource.take n s').1 = (TokenSource.take n s).1.map f) :
    (Parser.start s').program.1 = (Parser.start s).program.1.retoken f ∧
      (answering f seen hkind hint []).Abreast (Parser.start s).program.2
        (Parser.start s').program.2 := by
  have hstart : (answering f seen hkind hint []).Abreast (Parser.start s) (Parser.start s') :=
    ⟨fun n => ⟨hseen (n + 2), h (n + 2)⟩, rfl, rfl, rfl, rfl, [], by simp, rfl, rfl⟩
  have hstatements := statements_answering hstart
  exact ⟨congrArg Program.mk hstatements.1, hstatements.2⟩

/-! ### Runs that find the same tokens -/

/-- What is kept of a token that was read is the token itself, and its text. -/
theorem Parser.statements_self {p : Parser σ} (hgrammar : p.grammar = .standard)
    (herrors : p.errors = []) :
    Stmt.mapAll id (fun t _ => t.value) p.statements.1 = p.statements.1 := by
  have hself : (Pairing.answering id (fun _ => True) (fun _ _ => rfl) (fun _ _ _ => rfl)
      []).Abreast p p :=
    ⟨fun n => ⟨fun _ _ => trivial, (List.map_id _).symm⟩, hgrammar, hgrammar, rfl, rfl, [], by simp,
      herrors, herrors⟩
  exact (Pairing.statements_answering hself).1.symm

/-- **Two runs that find the same tokens** read the same statements and add the same errors to those
that they had before. -/
theorem Parser.statements_congr {p : Parser σ} {p' : Parser τ}
    (hupcoming : ∀ n, p'.window.upcoming n = p.window.upcoming n)
    (hgrammar : p.grammar = .standard) (hgrammar' : p'.grammar = .standard)
    (hexpr : p'.exprDepth = p.exprDepth) (hblock : p'.blockDepth = p.blockDepth)
    (herrors : p.errors = []) :
    p'.statements.1 = p.statements.1 ∧
      p'.statements.2.errors = p'.errors ++ p.statements.2.errors ∧
      ∀ n, p'.statements.2.window.upcoming n = p.statements.2.window.upcoming n := by
  have hsame : (Pairing.answering id (fun _ => True) (fun _ _ => rfl) (fun _ _ _ => rfl)
      p'.errors).Abreast p p' :=
    ⟨fun n => ⟨fun _ _ => trivial, by rw [hupcoming, List.map_id]⟩, hgrammar,
      hgrammar', hexpr, hblock, [], by simp, herrors, (List.append_nil _).symm⟩
  obtain ⟨hstatements, habreast⟩ := Pairing.statements_answering hsame
  obtain ⟨faults, -, hfaults, hfaults'⟩ := habreast.complains
  refine ⟨hstatements.trans (statements_self hgrammar herrors), ?_, fun n => ?_⟩
  · rw [hfaults, hfaults']
    rfl
  · rw [(habreast.meets n).2, List.map_id]

/-- **Sources that hand out the same tokens** hold the same program, with the same errors, and end
alike. -/
theorem Parser.program_congr {s : σ} {s' : τ}
    (h : ∀ n, (TokenSource.take n s').1 = (TokenSource.take n s).1) :
    (Parser.start s').program.1 = (Parser.start s).program.1 ∧
      (Parser.start s').program.2.errors = (Parser.start s).program.2.errors ∧
      ∀ n, (Parser.start s').program.2.window.upcoming n =
        (Parser.start s).program.2.window.upcoming n := by
  have hstart : ∀ n, (Parser.start s').window.upcoming n = (Parser.start s).window.upcoming n :=
    fun n => h (n + 2)
  obtain ⟨hstatements, herrors, hupcoming⟩ := statements_congr hstart rfl rfl rfl rfl rfl
  exact ⟨congrArg Program.mk hstatements, herrors, hupcoming⟩

end

end MonkeySyntax
