/-
# Trees with other tokens

`e.map f g` has the shape of `e`, with `f t` in the place of each of its tokens `t`, and `g t s` in
the place of each text `s` that is kept beside a token `t`: a name, the text of an operator, what a
string stands for.  What a number, `true` or `false` stands for stays as it is.

| tree | tokens | texts |
| --- | --- | --- |
| `e.retoken f` | the tokens under `f` | the values of the new tokens |
| `e.untoken` | all the same | as they were |

So two trees agree but for their tokens if they are equal after `untoken`.
-/

import MonkeySyntax.Tree

namespace MonkeySyntax

section

variable (f : Token → Token) (g : Token → String → String)

/-- A name with another token and another text. -/
def Identifier.map (name : Identifier) : Identifier := ⟨f name.token, g name.token name.value⟩

mutual

/-- An expression with other tokens and texts. -/
def Expr.map : Expr → Expr
  | .identifier name => .identifier (name.map f g)
  | .integer t value => .integer (f t) value
  | .boolean t value => .boolean (f t) value
  | .string t value => .string (f t) (g t value)
  | .prefixOp t operator right => .prefixOp (f t) (g t operator) right.map
  | .infixOp t left operator right => .infixOp (f t) left.map (g t operator) right.map
  | .conditional t condition consequence none =>
    .conditional (f t) condition.map consequence.map none
  | .conditional t condition consequence (some alternative) =>
    .conditional (f t) condition.map consequence.map (some alternative.map)
  | .function t parameters body => .function (f t) (parameters.map (Identifier.map f g)) body.map
  | .call t callee arguments => .call (f t) callee.map (Expr.mapAll arguments)
  | .array t elements => .array (f t) (Expr.mapAll elements)
  | .index t left index => .index (f t) left.map index.map
  | .hash t pairs => .hash (f t) (Expr.mapPairs pairs)

/-- Every expression of a list with other tokens and texts. -/
def Expr.mapAll : List Expr → List Expr
  | [] => []
  | e :: es => e.map :: Expr.mapAll es

/-- Every key and every value of a list with other tokens and texts. -/
def Expr.mapPairs : List (Expr × Expr) → List (Expr × Expr)
  | [] => []
  | (key, value) :: pairs => (key.map, value.map) :: Expr.mapPairs pairs

/-- A statement with other tokens and texts. -/
def Stmt.map : Stmt → Stmt
  | .letBinding t name value => .letBinding (f t) (name.map f g) value.map
  | .returnValue t none => .returnValue (f t) none
  | .returnValue t (some value) => .returnValue (f t) (some value.map)
  | .expression t e => .expression (f t) e.map
  | .block b => .block b.map

/-- Every statement of a list with other tokens and texts. -/
def Stmt.mapAll : List Stmt → List Stmt
  | [] => []
  | s :: ss => s.map :: Stmt.mapAll ss

/-- A block with other tokens and texts. -/
def Block.map : Block → Block
  | .mk t body => .mk (f t) (Stmt.mapAll body)

end

/-- A program with other tokens and texts. -/
def Program.map (p : Program) : Program := ⟨Stmt.mapAll f g p.body⟩

/-- The companion for lists maps each expression. -/
theorem Expr.mapAll_eq (es : List Expr) : Expr.mapAll f g es = es.map (Expr.map f g) := by
  induction es with
  | nil => rw [Expr.mapAll, List.map_nil]
  | cons e es ih => rw [Expr.mapAll, List.map_cons, ih]

/-- The companion for pairs maps each key and each value. -/
theorem Expr.mapPairs_eq (ps : List (Expr × Expr)) :
    Expr.mapPairs f g ps = ps.map (Prod.map (Expr.map f g) (Expr.map f g)) := by
  induction ps with
  | nil => rw [Expr.mapPairs, List.map_nil]
  | cons p ps ih => rw [Expr.mapPairs, List.map_cons, ih, Prod.map]

/-- The companion for lists maps each statement. -/
theorem Stmt.mapAll_eq (ss : List Stmt) : Stmt.mapAll f g ss = ss.map (Stmt.map f g) := by
  induction ss with
  | nil => rw [Stmt.mapAll, List.map_nil]
  | cons s ss ih => rw [Stmt.mapAll, List.map_cons, ih]

end

/-- A program with other tokens, and the texts that these have. -/
def Program.retoken (f : Token → Token) (p : Program) : Program := p.map f fun t _ => (f t).value

/-- A program with its texts, in which all tokens are the same. -/
def Program.untoken (p : Program) : Program := p.map (fun _ => .eof .null) fun _ s => s

end MonkeySyntax
