/-
# Equality of syntax trees

Two trees are equal if they have the same shape and every token in them is the same, with its
value, offsets and file names.  `Expr.same` walks both trees at once; `Expr.same_iff` and
the statements beside it say that it decides equality.
-/

import MonkeySyntax.Tree

namespace MonkeySyntax

mutual

/-- Whether two expressions are equal. -/
def Expr.same : Expr → Expr → Bool
  | .identifier a, .identifier b => a == b
  | .integer t a, .integer u b => t == u && a == b
  | .boolean t a, .boolean u b => t == u && a == b
  | .string t a, .string u b => t == u && a == b
  | .prefixOp t o a, .prefixOp u p b => t == u && o == p && a.same b
  | .infixOp t a o c, .infixOp u b p d => t == u && o == p && a.same b && c.same d
  | .conditional t a c none, .conditional u b d none => t == u && a.same b && c.same d
  | .conditional t a c (some e), .conditional u b d (some f) =>
    t == u && a.same b && c.same d && e.same f
  | .function t a c, .function u b d => t == u && a == b && c.same d
  | .call t a c, .call u b d => t == u && a.same b && Expr.sameList c d
  | .array t a, .array u b => t == u && Expr.sameList a b
  | .index t a c, .index u b d => t == u && a.same b && c.same d
  | .hash t a, .hash u b => t == u && Expr.samePairs a b
  | _, _ => false

/-- Whether two lists of expressions are equal. -/
def Expr.sameList : List Expr → List Expr → Bool
  | [], [] => true
  | a :: as, b :: bs => a.same b && Expr.sameList as bs
  | _, _ => false

/-- Whether two lists of keys and values are equal. -/
def Expr.samePairs : List (Expr × Expr) → List (Expr × Expr) → Bool
  | [], [] => true
  | (a, c) :: as, (b, d) :: bs => a.same b && c.same d && Expr.samePairs as bs
  | _, _ => false

/-- Whether two statements are equal. -/
def Stmt.same : Stmt → Stmt → Bool
  | .letBinding t a c, .letBinding u b d => t == u && a == b && c.same d
  | .returnValue t none, .returnValue u none => t == u
  | .returnValue t (some a), .returnValue u (some b) => t == u && a.same b
  | .expression t a, .expression u b => t == u && a.same b
  | .block a, .block b => a.same b
  | _, _ => false

/-- Whether two lists of statements are equal. -/
def Stmt.sameList : List Stmt → List Stmt → Bool
  | [], [] => true
  | a :: as, b :: bs => a.same b && Stmt.sameList as bs
  | _, _ => false

/-- Whether two blocks are equal. -/
def Block.same : Block → Block → Bool
  | .mk t a, .mk u b => t == u && Stmt.sameList a b

end

mutual

/-- The comparison of expressions decides whether they are equal. -/
theorem Expr.same_iff : ∀ a b : Expr, a.same b = true ↔ a = b
  | .identifier a, b => by cases b <;> simp [Expr.same]
  | .integer t a, b => by cases b <;> simp [Expr.same]
  | .boolean t a, b => by cases b <;> simp [Expr.same]
  | .string t a, b => by cases b <;> simp [Expr.same]
  | .prefixOp t o a, b => by
    cases b <;> simp [Expr.same, Expr.same_iff a, and_assoc]
  | .infixOp t a o c, b => by
    cases b <;> simp [Expr.same, Expr.same_iff a, Expr.same_iff c, and_assoc, and_left_comm]
  | .conditional t a c none, b => by
    cases b with
    | conditional u x y e =>
      cases e <;> simp [Expr.same, Expr.same_iff a, Block.same_iff c, and_assoc]
    | _ => simp [Expr.same]
  | .conditional t a c (some e), b => by
    cases b with
    | conditional u x y f =>
      cases f <;> simp [Expr.same, Expr.same_iff a, Block.same_iff c, Block.same_iff e, and_assoc]
    | _ => simp [Expr.same]
  | .function t a c, b => by cases b <;> simp [Expr.same, Block.same_iff c, and_assoc]
  | .call t a c, b => by
    cases b <;> simp [Expr.same, Expr.same_iff a, Expr.sameList_iff c, and_assoc]
  | .array t a, b => by cases b <;> simp [Expr.same, Expr.sameList_iff a]
  | .index t a c, b => by
    cases b <;> simp [Expr.same, Expr.same_iff a, Expr.same_iff c, and_assoc]
  | .hash t a, b => by cases b <;> simp [Expr.same, Expr.samePairs_iff a]

/-- So it does for lists of them, one by one. -/
theorem Expr.sameList_iff : ∀ as bs : List Expr, Expr.sameList as bs = true ↔ as = bs
  | [], bs => by cases bs <;> simp [Expr.sameList]
  | a :: as, bs => by
    cases bs <;> simp [Expr.sameList, Expr.same_iff a, Expr.sameList_iff as]

/-- So it does for the pairs of a hash. -/
theorem Expr.samePairs_iff :
    ∀ as bs : List (Expr × Expr), Expr.samePairs as bs = true ↔ as = bs
  | [], bs => by cases bs <;> simp [Expr.samePairs]
  | (a, c) :: as, bs => by
    cases bs with
    | nil => simp [Expr.samePairs]
    | cons b bs =>
      cases b
      simp [Expr.samePairs, Expr.same_iff a, Expr.same_iff c, Expr.samePairs_iff as]

/-- The comparison of statements decides whether they are equal. -/
theorem Stmt.same_iff : ∀ a b : Stmt, a.same b = true ↔ a = b
  | .letBinding t a c, b => by cases b <;> simp [Stmt.same, Expr.same_iff c, and_assoc]
  | .returnValue t none, b => by
    cases b with
    | returnValue u v => cases v <;> simp [Stmt.same]
    | _ => simp [Stmt.same]
  | .returnValue t (some a), b => by
    cases b with
    | returnValue u v => cases v <;> simp [Stmt.same, Expr.same_iff a]
    | _ => simp [Stmt.same]
  | .expression t a, b => by cases b <;> simp [Stmt.same, Expr.same_iff a]
  | .block a, b => by cases b <;> simp [Stmt.same, Block.same_iff a]

/-- So it does for lists of them. -/
theorem Stmt.sameList_iff : ∀ as bs : List Stmt, Stmt.sameList as bs = true ↔ as = bs
  | [], bs => by cases bs <;> simp [Stmt.sameList]
  | a :: as, bs => by
    cases bs <;> simp [Stmt.sameList, Stmt.same_iff a, Stmt.sameList_iff as]

/-- Blocks are equal if their tokens and statements are. -/
theorem Block.same_iff : ∀ a b : Block, a.same b = true ↔ a = b
  | .mk t a, .mk u b => by simp [Block.same, Stmt.sameList_iff a]

end

instance : DecidableEq Expr := fun a b => decidable_of_iff _ (Expr.same_iff a b)

instance : DecidableEq Stmt := fun a b => decidable_of_iff _ (Stmt.same_iff a b)

instance : DecidableEq Block := fun a b => decidable_of_iff _ (Block.same_iff a b)

deriving instance DecidableEq for Program

end MonkeySyntax
