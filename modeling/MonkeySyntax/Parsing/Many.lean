/-
# Repeated actions

`Action.many go item` runs `item` as long as `go` holds of the parser, and collects the results.
Each round has to leave fewer tokens than it found, which bounds their number.
-/

import MonkeySyntax.Parsing.Action

namespace MonkeySyntax
namespace Action

variable {σ : Type} [TokenSource σ] {α β : Type}

/-- Each result of `item` from a parser with `go` leaves fewer tokens. -/
def Shrinks (go : Parser σ → Bool) (item : Action σ α) : Prop :=
  ∀ p x, go p = true → (item.run p).1 = some x → (item.run p).2.window.left < p.window.left

/-- If the first part of an action leaves fewer tokens, so does the whole. -/
theorem Shrinks.bind {go : Parser σ → Bool} {a : Action σ α} (h : Shrinks go a)
    (f : α → Action σ β) : Shrinks go (a >>= f) := by
  intro p y hp hy
  obtain ⟨x, hx, heq⟩ := run_bind_eq_some hy
  rw [heq]
  exact Nat.lt_of_le_of_lt ((f x).onward _).left_le (h p x hp hx)

/-- The rounds of `many` from the parser `p`. -/
def manyFrom (go : Parser σ → Bool) (item : Action σ α) (shrinks : Shrinks go item)
    (p : Parser σ) : Option (List α) × Parser σ :=
  if _hp : go p = true then
    match _hr : item.run p with
    | (none, q) => (none, q)
    | (some x, q) =>
      match manyFrom go item shrinks q with
      | (none, r) => (none, r)
      | (some xs, r) => (some (x :: xs), r)
  else (some [], p)
termination_by p.window.left
decreasing_by
  have h := shrinks p x _hp (by rw [_hr])
  rwa [_hr] at h

/-- Repeated rounds move the window onward, as each of them does. -/
theorem manyFrom_onward (go : Parser σ → Bool) (item : Action σ α) (shrinks : Shrinks go item)
    (p : Parser σ) : p.window.Onward (manyFrom go item shrinks p).2.window := by
  fun_induction manyFrom go item shrinks p with
  | case1 p hp q hr => have h := item.onward p; rwa [hr] at h
  | case2 p hp x q hr r hm ih =>
    have h := item.onward p
    rw [hr] at h
    rw [hm] at ih
    exact h.trans ih
  | case3 p hp x q hr xs r hm ih =>
    have h := item.onward p
    rw [hr] at h
    rw [hm] at ih
    exact h.trans ih
  | case4 p hp => exact .refl _

/-- Repeats `item` as long as `go` holds, and collects the results. -/
def many (go : Parser σ → Bool) (item : Action σ α) (shrinks : Shrinks go item) :
    Action σ (List α) :=
  ⟨manyFrom go item shrinks, manyFrom_onward go item shrinks⟩

/-- **One round of a repetition.** -/
theorem run_many (go : Parser σ → Bool) (item : Action σ α) (shrinks : Shrinks go item)
    (p : Parser σ) :
    (many go item shrinks).run p =
      if go p = true then
        match item.run p with
        | (none, q) => (none, q)
        | (some x, q) =>
          match (many go item shrinks).run q with
          | (none, r) => (none, r)
          | (some xs, r) => (some (x :: xs), r)
      else (some [], p) := by
  simp only [many]
  rw [manyFrom]
  split
  · split <;> simp_all
  · rfl

/-- **A repetition that goes on** runs `item` and then the other rounds. -/
theorem run_many_of_go {go : Parser σ → Bool} {item : Action σ α} {shrinks : Shrinks go item}
    {p : Parser σ} (hgo : go p = true) :
    (many go item shrinks).run p =
      (item >>= fun x => many go item shrinks >>= fun xs => pure (x :: xs)).run p := by
  rw [run_many, if_pos hgo, run_bind]
  split
  · simp_all
  · rename_i x q hq
    simp only [hq, run_bind]
    split <;> simp_all

/-- **A repetition that has a result stopped where `go` does not hold.** -/
theorem not_go_of_many {go : Parser σ → Bool} {item : Action σ α} {shrinks : Shrinks go item}
    {p : Parser σ} {xs : List α} (h : ((many go item shrinks).run p).1 = some xs) :
    go ((many go item shrinks).run p).2 = false := by
  simp only [many] at h ⊢
  fun_induction manyFrom go item shrinks p generalizing xs with
  | case1 => simp at h
  | case2 => simp at h
  | case3 p hp x q hr ys r hm ih =>
    rw [hm] at ih
    exact ih rfl
  | case4 p hp => simpa using hp

end Action
end MonkeySyntax
