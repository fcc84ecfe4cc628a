import ExactLinear.AlgebraError

/- Computations that check what they take for granted. Values that are kept in plain
   lists are reached by number, and nothing about a list says which numbers are in
   range; a computation that asks for more than there is does not fail with an error
   of the language but stops the program. -/
namespace ExactLinear.Storage

/-- What stops the program. -/
inductive Panic where
  /-- An item that is not there. -/
  | index (index count : Nat)
  /-- A range of items that is not all there. -/
  | range (first last count : Nat)
  | entry (row col : Nat) (shape : Shape)
  | noColumns
  | noRows
  /-- A list of values that is not one value per entry. -/
  | unfilled (count : Nat) (shape : Shape)
  /-- A count less than nothing. -/
  | negative (left right : Nat)
  deriving DecidableEq, Repr

/-- Why a computation has no result: it is refused for a reason, or it stops the program. -/
inductive Stop (ε : Type) where
  | refusal (e : ε)
  | panic (p : Panic)

/-- Computations that may be refused or stop the program. -/
abbrev Checked (ε α : Type) := Except (Stop ε) α

variable {ε α : Type}

/-- A computation that may only be refused. -/
def attempt : Except ε α → Checked ε α
  | .ok a => .ok a
  | .error e => .error (.refusal e)

/-- A computation with the reason for a refusal told in another way. -/
def retold {ε' : Type} (f : ε → ε') : Checked ε α → Checked ε' α
  | .ok a => .ok a
  | .error (.refusal e) => .error (.refusal (f e))
  | .error (.panic p) => .error (.panic p)

/-! Lists. -/

/-- The item with the given number. -/
def item (xs : List α) (index : Nat) : Checked ε α :=
  match xs[index]? with
  | some x => .ok x
  | none => .error (.panic (.index index xs.length))

/-- The items from number `first` up to, but not including, number `last`. -/
def slice (xs : List α) (first last : Nat) : Checked ε (List α) :=
  if first ≤ last ∧ last ≤ xs.length then .ok ((xs.drop first).take (last - first))
  else .error (.panic (.range first last xs.length))

/-- The list with another item in place of the one with the given number. -/
def replaceItem (xs : List α) (index : Nat) (x : α) : Checked ε (List α) :=
  if index < xs.length then .ok (xs.set index x)
  else .error (.panic (.index index xs.length))

/-- The pairs of an item of one list and an item of another, the first of them changing least. -/
def pairs (is js : List Nat) : List (Nat × Nat) := is.flatMap fun i => js.map fun j => (i, j)

/-- The numbers from `first` up to, but not including, `last`. -/
def interval (first last : Nat) : List Nat := List.range' first (last - first)

/-- The difference of two counts. -/
def difference (a b : Nat) : Checked ε Nat :=
  if b ≤ a then .ok (a - b) else .error (.panic (.negative a b))

end ExactLinear.Storage
