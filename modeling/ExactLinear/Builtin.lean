/- The builtin functions: their names, of which the first is the canonical one,
   and the numbers of arguments they take. What they compute is in
   `Evaluation.Builtin`. -/
namespace ExactLinear

inductive Builtin where
  | inverse | rref | ef | span | determinant | rank | nullity | columnSpace | rowSpace
  | transpose | augment | identity | isConsistent | isIndependent | isBasis | spans | dimension
  deriving DecidableEq, Repr

/-- How many arguments a function takes. -/
inductive Arity where
  | exact (n : Nat)
  | atLeast (n : Nat)
  deriving DecidableEq, Repr

namespace Arity

def accepts : Arity → Nat → Bool
  | .exact n, found => found == n
  | .atLeast n, found => n ≤ found

def text : Arity → String
  | .exact n => Nat.repr n
  | .atLeast n => "at least " ++ Nat.repr n

end Arity

namespace Builtin

/-- Every builtin function once. -/
def all : List Builtin :=
  [.inverse, .rref, .ef, .span, .determinant, .rank, .nullity, .columnSpace, .rowSpace,
    .transpose, .augment, .identity, .isConsistent, .isIndependent, .isBasis, .spans, .dimension]

/-- The canonical name. -/
def name : Builtin → String
  | .inverse => "inverse"
  | .rref => "rref"
  | .ef => "ef"
  | .span => "span"
  | .determinant => "det"
  | .rank => "rank"
  | .nullity => "nullity"
  | .columnSpace => "col"
  | .rowSpace => "row"
  | .transpose => "transpose"
  | .augment => "augment"
  | .identity => "identity"
  | .isConsistent => "is_consistent"
  | .isIndependent => "is_independent"
  | .isBasis => "is_basis"
  | .spans => "spans"
  | .dimension => "dim"

/-- Other names for the same function. -/
def aliases : Builtin → List String
  | .inverse => ["inv"]
  | .determinant => ["determinant"]
  | .transpose => ["trans"]
  | .identity => ["eye"]
  | .dimension => ["dimension"]
  | _ => []

def names (f : Builtin) : List String := f.name :: f.aliases

def arity : Builtin → Arity
  | .span | .isIndependent | .isBasis | .dimension => .atLeast 1
  | .augment => .atLeast 2
  | .spans => .exact 2
  | _ => .exact 1

/-- The function that a name, canonical or not, stands for. -/
def ofName? (name : String) : Option Builtin := all.find? fun f => f.names.contains name

/-- The names that cannot be assigned to. -/
def reserved : List String := all.flatMap names

theorem mem_all (f : Builtin) : f ∈ all := by
  cases f <;> decide

theorem mem_reserved_iff {name : String} : name ∈ reserved ↔ ∃ f : Builtin, name ∈ f.names := by
  simp [reserved, mem_all]

/-- The names that cannot be assigned to are the ones that stand for a function. -/
theorem ofName?_eq_none_iff {name : String} : ofName? name = none ↔ name ∉ reserved := by
  simp [ofName?, mem_reserved_iff, mem_all]

end Builtin

end ExactLinear
