import ExactLinear.Value.Basic

/- Environments: the values that names are bound to. A name is bound at most once;
   binding it again replaces its value in place. -/
namespace ExactLinear

structure Environment where
  /-- The bindings, in the order in which their names were first bound. -/
  bindings : List (String × Value)

namespace Environment

def empty : Environment := ⟨[]⟩

/-- The value of the first binding of a name. -/
def lookup (name : String) : List (String × Value) → Option Value
  | [] => none
  | (other, value) :: rest => if other = name then some value else lookup name rest

def get? (env : Environment) (name : String) : Option Value := lookup name env.bindings

def contains (env : Environment) (name : String) : Bool := (env.get? name).isSome

/-- The bindings with the value of a name replaced, or with a new binding at the end. -/
def bind (name : String) (value : Value) : List (String × Value) → List (String × Value)
  | [] => [(name, value)]
  | (other, old) :: rest =>
    if other = name then (name, value) :: rest else (other, old) :: bind name value rest

def set (env : Environment) (name : String) (value : Value) : Environment :=
  ⟨bind name value env.bindings⟩

/-- How many names are bound. -/
def size (env : Environment) : Nat := env.bindings.length

def isEmpty (env : Environment) : Bool := env.bindings.isEmpty

@[simp] theorem get?_empty (name : String) : empty.get? name = none := rfl

theorem lookup_bind (name other : String) (value : Value) (bs : List (String × Value)) :
    lookup other (bind name value bs) = if name = other then some value else lookup other bs := by
  induction bs with
  | nil => simp [bind, lookup]
  | cons b bs ih =>
    obtain ⟨key, old⟩ := b
    by_cases h : key = name
    · subst h
      by_cases ho : key = other <;> simp [bind, lookup, ho]
    · by_cases ho : key = other
      · subst ho
        simp [bind, lookup, h, Ne.symm h]
      · simp [bind, lookup, h, ho, ih]

/-- Binding a name changes the value of that name only. -/
theorem get?_set (env : Environment) (name other : String) (value : Value) :
    (env.set name value).get? other = if name = other then some value else env.get? other :=
  lookup_bind name other value env.bindings

theorem contains_set {env : Environment} {name other : String} {value : Value} :
    (env.set name value).contains other = true ↔ name = other ∨ env.contains other = true := by
  rw [contains, get?_set, contains]
  split
  · next h => simp [h]
  · next h => simp [h]

end Environment

end ExactLinear
