import ExactLinear.Storage.Elimination

/- What is computed from eliminations of stored matrices: forms, determinant and
   inverse, the spaces of a matrix, and questions about families of vectors. Rows and
   columns are taken out by the numbers that an elimination has found. -/
namespace ExactLinear.Storage.Table

/-! One matrix. -/

def echelon (T : Table) : Checked AlgebraError Table := do
  let R ← T.eliminate .echelon
  return R.table

def reduced (T : Table) : Checked AlgebraError Table := do
  let R ← T.eliminate .reduced
  return R.table

def determinant (T : Table) : Checked AlgebraError Scalar :=
  if T.rows = T.cols then do
    let R ← T.eliminate .echelon
    return if R.rank < T.rows then 0
      else if R.rowSwaps % 2 = 1 then -R.pivotProduct
      else R.pivotProduct
  else .error (.refusal (.shape (.notSquare "determinant" T.shape)))

/-- The columns from number `rows` on of the reduced form of `T` with the identity beside it. -/
def inverse (T : Table) : Checked AlgebraError Table :=
  if T.rows = T.cols then do
    let unit ← identity T.rows
    let joined ← T.augment unit
    let R ← joined.eliminate .reduced
    if R.pivots = List.range T.rows then R.table.selectColumns (interval T.rows (2 * T.rows))
    else .error (.refusal .singular)
  else .error (.refusal (.shape (.notSquare "inverse" T.shape)))

def rank (T : Table) : Checked AlgebraError Nat := do
  let R ← T.eliminate .echelon
  return R.rank

def nullity (T : Table) : Checked AlgebraError Nat := do
  let r ← T.rank
  difference T.cols r

def columnSpace (T : Table) : Checked AlgebraError Table := do
  let R ← T.eliminate .reduced
  if R.rank = 0 then zeros T.rows 1 else T.selectColumns R.pivots

def rowSpace (T : Table) : Checked AlgebraError Table := do
  let R ← T.eliminate .reduced
  if R.rank = 0 then zeros 1 T.cols else R.table.selectRows (List.range R.rank)

def isConsistent (T : Table) : Checked AlgebraError Bool := do
  let R ← T.eliminate .echelon
  let last ← difference T.cols 1
  return R.pivots.getLast? != some last

/-! Families. -/

def joined (operation : String) : List Table → Checked AlgebraError Table
  | [] => .error (.refusal (.shape (.noVectors operation)))
  | T :: rest => T.augmentAll rest

def span (family : List Table) : Checked AlgebraError Table := do
  let T ← joined "span" family
  T.columnSpace

def dimension (family : List Table) : Checked AlgebraError Nat := do
  let T ← joined "dim" family
  T.rank

def isIndependent (family : List Table) : Checked AlgebraError Bool := do
  let T ← joined "is_independent" family
  let r ← T.rank
  return r == T.cols

def isBasis (family : List Table) : Checked AlgebraError Bool := do
  let T ← joined "is_basis" family
  if T.rows = T.cols then
    let r ← T.rank
    return r == T.cols
  else return false

def spans (vectors target : Table) : Checked AlgebraError Bool :=
  if vectors.rows = target.rows then do
    let own ← vectors.rank
    let both ← vectors.augment target
    let joint ← both.rank
    return own == joint
  else .error (.refusal (.shape (.lengths vectors.shape target.shape)))

end ExactLinear.Storage.Table
