import ExactLinear.Proofs.Rank

/- The log of an elimination, counted. For each pivot the pass down notes one swap at
   most, one scaling at most and a multiple for each row below, and the pass up a
   multiple for each row above; what is as it should be already is passed over. So
   the log goes with what is reported beside it (`Booked`): it has as many swaps as
   were counted, it scales no row twice, and its factors undo the product of the
   pivots. Every pivot pays for as many operations as there are rows, and one more;
   the pass down leaves a part of that unused, from which the pass up is paid. -/
namespace ExactLinear

variable {m n : Nat}

/-! Operations of one kind. -/

namespace RowOp

def swapped? : RowOp m → Option (Fin m × Fin m)
  | .swap i j => some (i, j)
  | _ => none

def scaled? : RowOp m → Option (Fin m × Scalar)
  | .scale i q => some (i, q)
  | _ => none

/-- The swaps of a log, each as its two rows. -/
def swaps (ops : List (RowOp m)) : List (Fin m × Fin m) := ops.filterMap swapped?

/-- The scalings of a log, each as its row and its factor. -/
def scalings (ops : List (RowOp m)) : List (Fin m × Scalar) := ops.filterMap scaled?

theorem swaps_append (first later : List (RowOp m)) :
    swaps (first ++ later) = swaps first ++ swaps later := List.filterMap_append

theorem scalings_append (first later : List (RowOp m)) :
    scalings (first ++ later) = scalings first ++ scalings later := List.filterMap_append

/-- What elimination notes: a row is swapped with one further up, a row is scaled in reduced mode
only and not by one, no multiple is zero, and in echelon mode multiples are added to rows further
down. -/
def Noted (mode : Mode) : RowOp m → Prop
  | .swap i j => j < i
  | .scale _ q => mode = .reduced ∧ q ≠ 1
  | .replace t s q => q ≠ 0 ∧ (mode = .echelon → s < t)

end RowOp

/-! The operations for one pivot. -/

namespace Work

theorem length_clearing_le (A : Grid m n) (r : Fin m) (c : Fin n) (targets : List (Fin m)) :
    (clearing A r c targets).length ≤ targets.length :=
  List.length_filterMap_le _ _

/-- A clearing notes multiples of a row and nothing else. -/
theorem filterMap_clearing {β : Type} {f : RowOp m → Option β} (A : Grid m n) (r : Fin m)
    (c : Fin n) (targets : List (Fin m)) (hf : ∀ t s q, f (.replace t s q) = none) :
    (clearing A r c targets).filterMap f = [] := by
  apply List.filterMap_eq_nil_iff.mpr
  intro op hop
  obtain ⟨t, _, _, rfl⟩ := mem_clearing.mp hop
  exact hf _ _ _

theorem swaps_clearing (A : Grid m n) (r : Fin m) (c : Fin n) (targets : List (Fin m)) :
    RowOp.swaps (clearing A r c targets) = [] :=
  filterMap_clearing A r c targets fun _ _ _ => rfl

theorem scalings_clearing (A : Grid m n) (r : Fin m) (c : Fin n) (targets : List (Fin m)) :
    RowOp.scalings (clearing A r c targets) = [] :=
  filterMap_clearing A r c targets fun _ _ _ => rfl

/-- The multiple for a row that is not zero yet is not zero. -/
theorem exists_of_mem_clearing {A : Grid m n} {r : Fin m} {c : Fin n} {targets : List (Fin m)}
    (hpivot : A.get r c ≠ 0) {op : RowOp m} (h : op ∈ clearing A r c targets) :
    ∃ t ∈ targets, ∃ q, q ≠ 0 ∧ op = .replace t r q := by
  obtain ⟨t, ht, hentry, rfl⟩ := mem_clearing.mp h
  exact ⟨t, ht, _, neg_ne_zero.mpr (div_ne_zero hentry hpivot), rfl⟩

end Work

namespace Elimination

theorem length_rowsBelow (r : Fin m) : (rowsBelow r).length = m - 1 - r := by
  have hcard : (rowsBelow r).length = (Finset.univ.filter (r < ·)).card := rfl
  rw [hcard, Finset.filter_lt_eq_Ioi, Fin.card_Ioi]

theorem length_rowsAbove (r : Fin m) : (rowsAbove r).length = r := by
  have hcard : (rowsAbove r).length = (Finset.univ.filter (· < r)).card := rfl
  rw [hcard, Finset.filter_gt_eq_Iio, Fin.card_Iio]

theorem swaps_pivoting (mode : Mode) (A : Grid m n) (r found : Fin m) (c : Fin n) :
    RowOp.swaps (pivoting mode A r found c) = if found = r then [] else [(found, r)] := by
  have hswap : RowOp.swaps (swapping r found) = if found = r then [] else [(found, r)] := by
    unfold swapping
    split <;> rfl
  have hscale : RowOp.swaps (scaling mode (A.get found c) r) = [] := by
    unfold scaling
    split <;> rfl
  rw [pivoting, placing, RowOp.swaps_append, RowOp.swaps_append, hswap, hscale,
    Work.swaps_clearing, List.append_nil, List.append_nil]

theorem scalings_pivoting (mode : Mode) (A : Grid m n) (r found : Fin m) (c : Fin n) :
    RowOp.scalings (pivoting mode A r found c) =
      if mode = .reduced ∧ A.get found c ≠ 1 then [(r, 1 / A.get found c)] else [] := by
  have hswap : RowOp.scalings (swapping r found) = [] := by
    unfold swapping
    split <;> rfl
  have hscale : RowOp.scalings (scaling mode (A.get found c) r) =
      if mode = .reduced ∧ A.get found c ≠ 1 then [(r, 1 / A.get found c)] else [] := by
    unfold scaling
    split <;> rfl
  rw [pivoting, placing, RowOp.scalings_append, RowOp.scalings_append, hswap, hscale,
    Work.scalings_clearing, List.nil_append, List.append_nil]

/-- The factor of a new pivot undoes it. -/
theorem prod_scalings_pivoting (A : Grid m n) (r : Fin m) {found : Fin m} {c : Fin n}
    (hpivot : A.get found c ≠ 0) :
    ((RowOp.scalings (pivoting .reduced A r found c)).map Prod.snd).prod * A.get found c = 1 := by
  rw [scalings_pivoting]
  by_cases hone : A.get found c = 1
  · simp [hone]
  · rw [if_pos ⟨rfl, hone⟩, List.map_singleton, List.prod_singleton]
    exact one_div_mul_cancel hpivot

theorem fst_of_mem_scalings_pivoting {mode : Mode} {A : Grid m n} {r found : Fin m} {c : Fin n}
    {x : Fin m × Scalar} (h : x ∈ RowOp.scalings (pivoting mode A r found c)) : x.1 = r := by
  rw [scalings_pivoting] at h
  split at h
  · rw [List.mem_singleton.mp h]
  · exact absurd h List.not_mem_nil

theorem length_pivoting_le (mode : Mode) (A : Grid m n) (r found : Fin m) (c : Fin n) :
    (pivoting mode A r found c).length + r ≤ m + 1 := by
  have hswap : (swapping r found).length ≤ 1 := by
    unfold swapping
    split <;> simp
  have hscale : (scaling mode (A.get found c) r).length ≤ 1 := by
    unfold scaling
    split <;> simp
  have hplace : (placing mode A r found c).length ≤ 2 := by
    rw [placing, List.length_append]
    omega
  have hclear := Work.length_clearing_le (RowOp.applyAll (placing mode A r found c) A) r c
    (rowsBelow r)
  rw [length_rowsBelow] at hclear
  have hr := r.isLt
  rw [pivoting, List.length_append]
  omega

/-- A pivot is swapped into its row from another one, scaled if it is not one, and its multiples
are added to rows below that are not zero yet. -/
theorem cases_of_mem_pivoting {mode : Mode} {A : Grid m n} {r found : Fin m} {c : Fin n}
    (hpivot : A.get found c ≠ 0) {op : RowOp m} (hop : op ∈ pivoting mode A r found c) :
    (found ≠ r ∧ op = .swap found r) ∨
      (mode = .reduced ∧ A.get found c ≠ 1 ∧ op = .scale r (1 / A.get found c)) ∨
      ∃ t q, r < t ∧ q ≠ 0 ∧ op = .replace t r q := by
  simp only [pivoting, placing, List.mem_append] at hop
  rcases hop with (hop | hop) | hop
  · unfold swapping at hop
    split at hop
    · exact absurd hop List.not_mem_nil
    · next hne => exact .inl ⟨hne, List.mem_singleton.mp hop⟩
  · unfold scaling at hop
    split at hop
    · next h => exact .inr (.inl ⟨h.1, h.2, List.mem_singleton.mp hop⟩)
    · exact absurd hop List.not_mem_nil
  · have hscaled : (RowOp.applyAll (placing mode A r found c) A).get r c ≠ 0 := by
      rw [get_applyAll_placing, if_pos rfl]
      exact mul_ne_zero hpivot (mode.factor_ne_zero hpivot)
    obtain ⟨t, ht, q, hq, rfl⟩ := Work.exists_of_mem_clearing hscaled hop
    exact .inr (.inr ⟨t, q, mem_rowsBelow.mp ht, hq, rfl⟩)

theorem noted_of_mem_pivoting {mode : Mode} {A : Grid m n} {r found : Fin m} {c : Fin n}
    (hle : r ≤ found) (hpivot : A.get found c ≠ 0) {op : RowOp m}
    (hop : op ∈ pivoting mode A r found c) : op.Noted mode := by
  rcases cases_of_mem_pivoting hpivot hop with ⟨hne, rfl⟩ | ⟨hmode, hone, rfl⟩ | ⟨t, q, ht, hq, rfl⟩
  · exact lt_of_le_of_ne hle (Ne.symm hne)
  · exact ⟨hmode, fun hfactor => hone ((div_eq_one_iff_eq hpivot).mp hfactor).symm⟩
  · exact ⟨hq, fun _ => ht⟩

/-! What the log has to do with the rest of the state. -/

/-- How the log goes with the pivots and the counts beside it, with so many operations in
reserve. -/
structure Booked (mode : Mode) (reserve : Nat) (E : Elimination m n) : Prop where
  noted : ∀ op ∈ E.operations, op.Noted mode
  swaps : (RowOp.swaps E.operations).length = E.rowSwaps
  scaled_once : ((RowOp.scalings E.operations).map Prod.fst).Nodup
  scaled_lt : ∀ x ∈ RowOp.scalings E.operations, x.1.val < E.pivots.length
  product : mode = .reduced →
    ((RowOp.scalings E.operations).map Prod.snd).prod * E.pivotProduct = 1
  length : E.operations.length + reserve ≤ E.pivots.length * (m + 1)

namespace Booked
variable {mode : Mode} {reserve : Nat} {E : Elimination m n}

theorem start (A : Grid m n) : Booked mode 0 (Elimination.start A) where
  noted := fun _ hop => absurd hop List.not_mem_nil
  swaps := rfl
  scaled_once := List.nodup_nil
  scaled_lt := fun _ hx => absurd hx List.not_mem_nil
  product := fun _ => one_mul 1
  length := Nat.zero_le _

theorem spare (h : Booked mode reserve E) : Booked mode 0 E :=
  { h with length := Nat.le_of_add_right_le h.length }

/-- A new pivot in row `r` leaves `r` operations for the rows above. -/
theorem pivoted (h : Booked mode reserve E) {found : Fin m} {c : Fin n} (hm : E.pivots.length < m)
    (hfound : pivotRow? E.grid ⟨E.pivots.length, hm⟩ c = some found) :
    Booked mode (reserve + E.pivots.length)
      (E.pivoted mode ⟨E.pivots.length, hm⟩ found c) := by
  obtain ⟨hle, hpivot⟩ := pivotRow?_eq_some hfound
  have hops : (E.pivoted mode ⟨E.pivots.length, hm⟩ found c).operations =
      E.operations ++ pivoting mode E.grid ⟨E.pivots.length, hm⟩ found c :=
    Work.operations_recordAll _ _
  have hpivots : (E.pivoted mode ⟨E.pivots.length, hm⟩ found c).pivots.length =
      E.pivots.length + 1 := List.length_append
  constructor
  case noted =>
    intro op hop
    rw [hops] at hop
    rcases List.mem_append.mp hop with hop | hop
    · exact h.noted op hop
    · exact noted_of_mem_pivoting hle hpivot hop
  case swaps =>
    rw [hops, RowOp.swaps_append, List.length_append, h.swaps, swaps_pivoting, Elimination.pivoted]
    split <;> rfl
  case scaled_once =>
    rw [hops, RowOp.scalings_append, List.map_append]
    refine List.nodup_append.mpr ⟨h.scaled_once, ?_, ?_⟩
    · rw [scalings_pivoting]
      split <;> simp
    · -- The rows scaled before have their pivots, and this one has none yet.
      intro i hi j hj
      obtain ⟨x, hx, rfl⟩ := List.mem_map.mp hi
      obtain ⟨y, hy, rfl⟩ := List.mem_map.mp hj
      rw [fst_of_mem_scalings_pivoting hy]
      exact Fin.ne_of_lt (h.scaled_lt x hx)
  case scaled_lt =>
    intro x hx
    rw [hops, RowOp.scalings_append] at hx
    rw [hpivots]
    rcases List.mem_append.mp hx with hx | hx
    · exact Nat.lt_succ_of_lt (h.scaled_lt x hx)
    · rw [fst_of_mem_scalings_pivoting hx]
      exact Nat.lt_succ_self _
  case product =>
    rintro rfl
    have hproduct : (E.pivoted .reduced ⟨E.pivots.length, hm⟩ found c).pivotProduct =
        E.pivotProduct * E.grid.get found c := rfl
    rw [hops, hproduct, RowOp.scalings_append, List.map_append, List.prod_append,
      mul_mul_mul_comm, h.product rfl, prod_scalings_pivoting E.grid _ hpivot, one_mul]
  case length =>
    have hlength : (pivoting mode E.grid ⟨E.pivots.length, hm⟩ found c).length +
        E.pivots.length ≤ m + 1 := length_pivoting_le mode E.grid _ found c
    have hbefore := h.length
    rw [hops, hpivots, List.length_append, Nat.succ_mul]
    omega

/-- Clearing a column above a pivot in row `r` takes `r` operations from the reserve. -/
theorem cleared {w : Work m n} {r : Fin m} {c : Fin n}
    (h : Booked .reduced (reserve + r) { E with toWork := w }) (hpivot : w.grid.get r c ≠ 0) :
    Booked .reduced reserve
      { E with toWork := w.recordAll (Work.clearing w.grid r c (rowsAbove r)) } := by
  have hops := Work.operations_recordAll w (Work.clearing w.grid r c (rowsAbove r))
  have hscalings : RowOp.scalings (w.recordAll
      (Work.clearing w.grid r c (rowsAbove r))).operations = RowOp.scalings w.operations := by
    rw [hops, RowOp.scalings_append, Work.scalings_clearing, List.append_nil]
  constructor
  case noted =>
    intro op hop
    rw [hops] at hop
    rcases List.mem_append.mp hop with hop | hop
    · exact h.noted op hop
    · obtain ⟨t, _, q, hq, rfl⟩ := Work.exists_of_mem_clearing hpivot hop
      exact ⟨hq, fun hmode => nomatch hmode⟩
  case swaps =>
    rw [hops, RowOp.swaps_append, Work.swaps_clearing, List.append_nil]
    exact h.swaps
  case scaled_once =>
    rw [hscalings]
    exact h.scaled_once
  case scaled_lt =>
    rw [hscalings]
    exact h.scaled_lt
  case product =>
    rw [hscalings]
    exact h.product
  case length =>
    have hclear := Work.length_clearing_le w.grid r c (rowsAbove r)
    rw [length_rowsAbove] at hclear
    have hbefore : w.operations.length + (reserve + r) ≤ E.pivots.length * (m + 1) := h.length
    rw [hops, List.length_append]
    show _ ≤ E.pivots.length * (m + 1)
    omega

end Booked

/-! The two passes. -/

theorem Descends.booked {mode : Mode} {E E' : Elimination m n} {cs : List (Fin n)}
    (hrun : Descends mode E cs E') (h : Booked mode (List.range E.pivots.length).sum E) :
    Booked mode (List.range E'.pivots.length).sum E' := by
  induction hrun with
  | done E => exact h
  | full _ => exact h
  | free _ _ _ ih => exact ih h
  | pivot hm hfound _ ih =>
    apply ih
    have hnext := h.pivoted hm hfound
    rw [pivoted, List.length_append, List.length_singleton, List.range_succ, List.sum_append,
      List.sum_singleton]
    exact hnext

theorem Ascends.booked {E : Elimination m n} {w w' : Work m n} {places : List (Fin m × Fin n)}
    (hrun : Ascends w places w') {reserve : Nat}
    (h : Booked .reduced (reserve + (places.map fun x => x.1.val).sum) { E with toWork := w }) :
    Booked .reduced reserve { E with toWork := w' } := by
  induction hrun generalizing reserve with
  | done => exact h
  | @clear w' r c later _ hpivot ih =>
    rw [List.map_cons, List.sum_cons, ← Nat.add_assoc] at h
    exact (ih h).cleared hpivot

/-- The rows with a pivot are the first ones. -/
theorem map_places {E : Elimination m n} (h : E.pivots.length ≤ m) :
    (E.places.map fun x => x.1.val) = List.range E.pivots.length := by
  apply List.ext_getElem
  · simp [places, h]
  · intro i _ _
    simp [places]

theorem Eliminates.booked {A : Grid m n} {mode : Mode} {E : Elimination m n}
    (h : Eliminates A mode E) : Booked mode 0 E := by
  cases h with
  | echelon down => exact (down.booked (.start A)).spare
  | @reduced D w down up =>
    apply up.booked
    rw [map_places down.swept_start.length_le, Nat.zero_add]
    exact down.booked (.start A)

end Elimination

/-- Elimination succeeds, and its log has no operation that does nothing: a swap brings a row
up to another place, a factor is not one, a multiple is not zero. There are as many swaps as were
counted. In echelon mode nothing is scaled, and multiples are added to rows further down only; in
reduced mode each row with a pivot is scaled at most once and no other row is, and all factors
together undo the product of the pivots. With `k` pivots in `r` rows there are at most
`k * (r + 1)` operations. -/
theorem Mat.eliminate_log (A : Mat) (mode : Mode) :
    ∃ E, A.eliminate mode = .ok E ∧ E.rank = A.grid.toMatrix.rank ∧
      (∀ i j, .swap i j ∈ E.operations → j < i) ∧
      (∀ i q, .scale i q ∈ E.operations → q ≠ 1) ∧
      (∀ t s q, .replace t s q ∈ E.operations → q ≠ 0) ∧
      (RowOp.swaps E.operations).length = E.rowSwaps ∧
      (mode = .echelon →
        RowOp.scalings E.operations = [] ∧ ∀ t s q, .replace t s q ∈ E.operations → s < t) ∧
      (mode = .reduced →
        ((RowOp.scalings E.operations).map Prod.fst).Nodup ∧
        (∀ x ∈ RowOp.scalings E.operations, x.1.val < E.rank) ∧
        ((RowOp.scalings E.operations).map Prod.snd).prod * E.pivotProduct = 1) ∧
      E.operations.length ≤ E.rank * (A.rows + 1) := by
  obtain ⟨E, hE⟩ := Elimination.exists_eliminates A.grid mode
  have h := hE.booked
  refine ⟨E, hE.eliminate_eq, hE.rank_eq, fun i j hop => h.noted _ hop,
    fun i q hop => (h.noted _ hop).2, fun t s q hop => (h.noted _ hop).1, h.swaps, ?_,
    fun hmode => ⟨h.scaled_once, h.scaled_lt, h.product hmode⟩, h.length⟩
  rintro rfl
  refine ⟨?_, fun t s q hop => (h.noted _ hop).2 rfl⟩
  apply List.filterMap_eq_nil_iff.mpr
  intro op hop
  cases op with
  | swap i j => rfl
  | scale i q => exact nomatch (h.noted _ hop).1
  | replace t s q => rfl

example :
    (Grid.eliminate ⟨#v[#v[0, 2], #v[1, 1]]⟩ .reduced).map
      (fun E => E.operations.map RowOp.text) =
        .ok ["R2 <-> R1", "R2 -> 1/2 R2", "R1 -> R1 + -1 R2"] := by
  decide +kernel

end ExactLinear
