import ExactLinear.Elimination
import ExactLinear.Storage.Table

/- Elimination of a stored matrix. The entries are copied into a buffer and changed in
   place, one cell after another; rows and columns are numbers that nothing keeps in
   range. The list of the row operations is left out, since no value depends on it. -/
namespace ExactLinear.Storage

/-- A copy of the entries of a table to work on. -/
structure Buffer where
  rows : Nat
  cols : Nat
  cells : List Scalar

namespace Buffer
variable {ε : Type}

def ofTable (T : Table) : Buffer := ⟨T.rows, T.cols, T.values⟩

def get (B : Buffer) (i j : Nat) : Checked ε Scalar := item B.cells (i * B.cols + j)

/-- Changes the cells at each column in turn. -/
def eachColumn (B : Buffer) (change : List Scalar → Nat → Checked ε (List Scalar)) :
    Checked ε Buffer := do
  let cells ← (List.range B.cols).foldlM change B.cells
  return { B with cells }

/-! Row operations. -/

def swapRows (B : Buffer) (first second : Nat) : Checked ε Buffer :=
  B.eachColumn fun cells j => do
    let a ← item cells (first * B.cols + j)
    let b ← item cells (second * B.cols + j)
    let placed ← replaceItem cells (first * B.cols + j) b
    replaceItem placed (second * B.cols + j) a

def scaleRow (B : Buffer) (i : Nat) (factor : Scalar) : Checked ε Buffer := do
  let row ← slice B.cells (i * B.cols) ((i + 1) * B.cols)
  return { B with
    cells := B.cells.take (i * B.cols) ++ row.map (· * factor) ++
      B.cells.drop ((i + 1) * B.cols) }

def replaceRow (B : Buffer) (target source : Nat) (factor : Scalar) : Checked ε Buffer :=
  B.eachColumn fun cells j => do
    let delta ← item cells (source * B.cols + j)
    let old ← item cells (target * B.cols + j)
    replaceItem cells (target * B.cols + j) (old + factor * delta)

/-- Performs a row operation in place. -/
def perform {m : Nat} (B : Buffer) : RowOp m → Checked ε Buffer
  | .swap i j => B.swapRows i j
  | .scale i q => B.scaleRow i q
  | .replace t s q => B.replaceRow t s q

/-! One column. -/

/-- The first of the listed rows with a nonzero entry in column `c`. -/
def pivotRow? (B : Buffer) (c : Nat) : List Nat → Checked ε (Option Nat)
  | [] => .ok none
  | i :: rest => do
    let a ← B.get i c
    if a = 0 then B.pivotRow? c rest else return some i

/-- Makes the entries of column `c` in the target rows zero with row `r`. -/
def clear (pivot : Scalar) (r c : Nat) (B : Buffer) : List Nat → Checked AlgebraError Buffer
  | [] => .ok B
  | t :: rest => do
    let a ← B.get t c
    if a = 0 then B.clear pivot r c rest
    else
      let q ← attempt (Scalar.divide a pivot)
      let replaced ← B.replaceRow t r (-q)
      replaced.clear pivot r c rest

def clearColumn (B : Buffer) (r c : Nat) (targets : List Nat) : Checked AlgebraError Buffer := do
  let pivot ← B.get r c
  B.clear pivot r c targets

/-- Moves row `found` to row `r`, unless it is there already. -/
def place (B : Buffer) (r found : Nat) : Checked ε Buffer :=
  if found = r then .ok B else B.swapRows found r

/-- Divides row `r` by its pivot, in reduced mode and when the pivot is not one already. -/
def normalize (mode : Mode) (pivot : Scalar) (r : Nat) (B : Buffer) :
    Checked AlgebraError Buffer :=
  if mode = .reduced ∧ pivot ≠ 1 then do
    let q ← attempt (Scalar.reciprocal pivot)
    B.scaleRow r q
  else .ok B

/-- The pass up, over pivots with their rows: the last in the list comes first. -/
def ascend (B : Buffer) : List (Nat × Nat) → Checked AlgebraError Buffer
  | [] => .ok B
  | (c, r) :: later => do
    let cleared ← B.ascend later
    cleared.clearColumn r c (List.range r)

/-- The pass up, which is made in reduced mode only. -/
def finish (mode : Mode) (B : Buffer) (pivots : List Nat) : Checked AlgebraError Buffer :=
  match mode with
  | .echelon => .ok B
  | .reduced => B.ascend pivots.zipIdx

end Buffer

/-- A row operation, performed on a copy of the entries. -/
def Table.rowOp {ε : Type} {m : Nat} (T : Table) (op : RowOp m) : Checked ε Table := do
  let buffer ← (Buffer.ofTable T).perform op
  T.withValues buffer.cells

/-- How far elimination has come. -/
structure Progress where
  buffer : Buffer
  pivots : List Nat
  pivotProduct : Scalar
  rowSwaps : Nat

namespace Progress

/-- Makes the entry of row `found` in column `c` the pivot of row `r`. -/
def pivotAt (mode : Mode) (P : Progress) (r found c : Nat) : Checked AlgebraError Progress := do
  let placed ← P.buffer.place r found
  let pivot ← placed.get r c
  let scaled ← placed.normalize mode pivot r
  let cleared ← scaled.clearColumn r c (interval (r + 1) P.buffer.rows)
  return {
    buffer := cleared
    pivots := P.pivots ++ [c]
    pivotProduct := P.pivotProduct * pivot
    rowSwaps := P.rowSwaps + if found = r then 0 else 1 }

/-- The pass down: the listed columns in turn, up to the one where every row has a pivot. -/
def descend (mode : Mode) (P : Progress) : List Nat → Checked AlgebraError Progress
  | [] => .ok P
  | c :: rest =>
    if P.pivots.length = P.buffer.rows then .ok P
    else do
      let found? ← P.buffer.pivotRow? c (interval P.pivots.length P.buffer.rows)
      match found? with
      | none => P.descend mode rest
      | some found =>
        let next ← P.pivotAt mode P.pivots.length found c
        next.descend mode rest

end Progress

/-- What elimination of a table comes to. -/
structure Reduction where
  table : Table
  pivots : List Nat
  pivotProduct : Scalar
  rowSwaps : Nat

def Reduction.rank (R : Reduction) : Nat := R.pivots.length

def Table.eliminate (T : Table) (mode : Mode) : Checked AlgebraError Reduction := do
  let down ← Progress.descend mode ⟨.ofTable T, [], 1, 0⟩ (List.range T.cols)
  let buffer ← down.buffer.finish mode down.pivots
  let table ← T.withValues buffer.cells
  return ⟨table, down.pivots, down.pivotProduct, down.rowSwaps⟩

end ExactLinear.Storage
