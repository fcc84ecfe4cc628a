import ExactLinear.Scalar.Basic

/- Grids of scalars of a fixed shape, stored row by row. Everything a grid
   operation does is said by one equation about `get`, its entry at a row and a
   column, and two grids with the same entries are the same grid (`ext_get`). -/
namespace ExactLinear

/-- `m` rows of `n` scalars; either number may be zero. -/
structure Grid (m n : Nat) where
  rows : Vector (Vector Scalar n) m
  deriving DecidableEq

namespace Grid
variable {m n k : Nat}

def row (A : Grid m n) (i : Fin m) : Vector Scalar n := A.rows[i]

def get (A : Grid m n) (i : Fin m) (j : Fin n) : Scalar := A.rows[i][j]

def ofFn (f : Fin m → Fin n → Scalar) : Grid m n :=
  ⟨Vector.ofFn fun i => Vector.ofFn fun j => f i j⟩

@[simp] theorem get_ofFn (f : Fin m → Fin n → Scalar) (i : Fin m) (j : Fin n) :
    (ofFn f).get i j = f i j := by
  simp [get, ofFn]

theorem ext_get {A B : Grid m n} (h : ∀ i j, A.get i j = B.get i j) : A = B := by
  obtain ⟨a⟩ := A
  obtain ⟨b⟩ := B
  congr 1
  apply Vector.ext
  intro i hi
  apply Vector.ext
  intro j hj
  exact h ⟨i, hi⟩ ⟨j, hj⟩

/-- The same grid under equal numbers of rows and columns. -/
def cast {m' n' : Nat} (hm : m = m') (hn : n = n') (A : Grid m n) : Grid m' n' := hm ▸ hn ▸ A

@[simp] theorem get_cast {m' n' : Nat} (hm : m = m') (hn : n = n') (A : Grid m n) (i : Fin m')
    (j : Fin n') : (A.cast hm hn).get i j = A.get (i.cast hm.symm) (j.cast hn.symm) := by
  subst hm hn
  rfl

/-! Entry by entry. -/

def map (f : Scalar → Scalar) (A : Grid m n) : Grid m n :=
  ⟨A.rows.map fun r => r.map f⟩

def zipWith (f : Scalar → Scalar → Scalar) (A B : Grid m n) : Grid m n :=
  ⟨Vector.zipWith (Vector.zipWith f) A.rows B.rows⟩

@[simp] theorem get_map (f : Scalar → Scalar) (A : Grid m n) (i : Fin m) (j : Fin n) :
    (A.map f).get i j = f (A.get i j) := by
  simp [get, map]

@[simp] theorem get_zipWith (f : Scalar → Scalar → Scalar) (A B : Grid m n) (i : Fin m)
    (j : Fin n) : (zipWith f A B).get i j = f (A.get i j) (B.get i j) := by
  simp [get, zipWith]

def add (A B : Grid m n) : Grid m n := zipWith (· + ·) A B
def sub (A B : Grid m n) : Grid m n := zipWith (· - ·) A B
def neg (A : Grid m n) : Grid m n := A.map (- ·)
def scale (q : Scalar) (A : Grid m n) : Grid m n := A.map (· * q)

/-! Products and named grids. -/

def zero (m n : Nat) : Grid m n := ofFn fun _ _ => 0

def identity (n : Nat) : Grid n n := ofFn fun i j => if i = j then 1 else 0

/-- Row `i` of `A` times column `j` of `B`, summed from the left. -/
def dot (A : Grid m k) (B : Grid k n) (i : Fin m) (j : Fin n) : Scalar :=
  Fin.foldl k (fun sum l => sum + A.get i l * B.get l j) 0

def mul (A : Grid m k) (B : Grid k n) : Grid m n := ofFn (dot A B)

def transpose (A : Grid m n) : Grid n m := ofFn fun i j => A.get j i

/-! Whole rows and columns. -/

/-- `A` with row `i` replaced by `r`. -/
def setRow (A : Grid m n) (i : Fin m) (r : Vector Scalar n) : Grid m n :=
  ⟨A.rows.set i r⟩

theorem get_setRow (A : Grid m n) (i : Fin m) (r : Vector Scalar n) (i' : Fin m) (j : Fin n) :
    (A.setRow i r).get i' j = if i = i' then r[j] else A.get i' j := by
  simp only [get, setRow, Fin.getElem_fin, Vector.getElem_set, Fin.ext_iff]
  split <;> rfl

/-- The columns of `A` followed by those of `B`. -/
def augment (A : Grid m n) (B : Grid m k) : Grid m (n + k) :=
  ⟨Vector.zipWith (· ++ ·) A.rows B.rows⟩

theorem get_augment (A : Grid m n) (B : Grid m k) (i : Fin m) (j : Fin (n + k)) :
    (A.augment B).get i j =
      if h : j < n then A.get i ⟨j, h⟩ else B.get i ⟨j - n, by omega⟩ := by
  simp [get, augment, Vector.getElem_append]

/-- The last `k` columns of a grid of `n + k`. -/
def rightPart (A : Grid m (n + k)) : Grid m k := ofFn fun i j => A.get i (Fin.natAdd n j)

/-- The listed rows in the listed order, repetitions included. -/
def selectRows (A : Grid m n) (is : List (Fin m)) : Grid is.length n :=
  ⟨⟨(is.map A.row).toArray, by simp⟩⟩

/-- The listed columns in the listed order, repetitions included. -/
def selectColumns (A : Grid m n) (js : List (Fin n)) : Grid m js.length :=
  ⟨A.rows.map fun r => ⟨(js.map fun j => r[j]).toArray, by simp⟩⟩

@[simp] theorem get_selectRows (A : Grid m n) (is : List (Fin m)) (i : Fin is.length)
    (j : Fin n) : (A.selectRows is).get i j = A.get is[i] j := by
  simp [get, selectRows, row]

@[simp] theorem get_selectColumns (A : Grid m n) (js : List (Fin n)) (i : Fin m)
    (j : Fin js.length) : (A.selectColumns js).get i j = A.get i js[j] := by
  simp [get, selectColumns]

/-! Lists. -/

def toRows (A : Grid m n) : List (List Scalar) := A.rows.toList.map Vector.toList

theorem position_lt {i j : Nat} (hi : i < m) (hj : j < n) : i * n + j < m * n := by
  have := Nat.mul_le_mul_right n (Nat.succ_le_of_lt hi)
  rw [Nat.succ_mul] at this
  omega

/-- The grid whose entry at row `i` and column `j` is the value numbered `i * n + j`. -/
def ofValues (values : Array Scalar) (h : m * n = values.size) : Grid m n :=
  ofFn fun i j =>
    have : i.val * n + j.val < values.size := h ▸ position_lt i.isLt j.isLt
    values[i.val * n + j.val]

end Grid

end ExactLinear
