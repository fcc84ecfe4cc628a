import ExactLinear.Family
import ExactLinear.Proofs.ColumnSpace

/- Whether the vectors of a family are independent, whether they are a basis, and
   how many of them are independent at most. The routines join the members side by
   side and compare one number of pivots with numbers of rows and columns; here it
   is shown that the columns of the joined matrix are the vectors of the family
   (`joined_of_rows_eq`), and what the rank of a grid says about its columns: they
   are independent if it is their number, they span everything if it is their height,
   and it is the largest number of them that is independent (`isGreatest_rank`). -/

namespace ExactLinear

variable {m n k : Nat}

/-! Lists of vectors. -/

theorem linearIndependent_get_iff {C : List (Fin m → Scalar)} :
    LinearIndependent Scalar C.get ↔
      Module.finrank Scalar (Submodule.span Scalar {v | v ∈ C}) = C.length := by
  rw [linearIndependent_iff_card_eq_finrank_span, Fintype.card_fin, eq_comm, Set.finrank,
    Set.range_list_get]

namespace Grid

@[simp] theorem length_columns (A : Grid m n) : A.columns.length = n := List.length_ofFn

theorem span_columns (A : Grid m n) : Submodule.span Scalar {v | v ∈ A.columns} = A.columnSpan := by
  have hrange : {v | v ∈ A.columns} = Set.range A.toMatrix.col := by
    ext v
    exact List.mem_ofFn' _ v
  rw [hrange]
  rfl

theorem linearIndependent_columns_iff {A : Grid m n} :
    LinearIndependent Scalar A.columns.get ↔ A.toMatrix.rank = n := by
  rw [linearIndependent_get_iff, span_columns, finrank_columnSpan, length_columns]

theorem columnSpan_eq_top_iff {A : Grid m n} : A.columnSpan = ⊤ ↔ A.toMatrix.rank = m := by
  rw [← finrank_columnSpan]
  refine ⟨?_, ?_⟩
  · intro h
    rw [h, finrank_top, Module.finrank_fin_fun]
  · intro h
    apply Submodule.eq_top_of_finrank_eq
    rw [h, Module.finrank_fin_fun]

theorem columns_augment (A : Grid m n) (B : Grid m k) :
    (A.augment B).columns = A.columns ++ B.columns := by
  rw [columns, List.ofFn_add]
  congr 1
  · congr 1
    funext j i
    exact get_augment_castAdd A B i j
  · congr 1
    funext j i
    exact get_augment_natAdd A B i j

theorem columns_selectColumns_subset (A : Grid m n) (js : List (Fin n)) :
    (A.selectColumns js).columns ⊆ A.columns := by
  intro v hv
  obtain ⟨l, rfl⟩ := (List.mem_ofFn' _ _).mp hv
  apply (List.mem_ofFn' _ _).mpr
  refine ⟨js[l], ?_⟩
  funext i
  exact (get_selectColumns A js i l).symm

/-- The rank is the largest number of columns that are independent. -/
theorem isGreatest_rank (A : Grid m n) :
    IsGreatest {k | ∃ D, D ⊆ A.columns ∧ LinearIndependent Scalar D.get ∧ D.length = k}
      A.toMatrix.rank := by
  obtain ⟨E, hE⟩ := Elimination.exists_eliminates A .reduced
  refine ⟨?_, ?_⟩
  · refine ⟨(A.selectColumns E.pivots).columns, A.columns_selectColumns_subset _, ?_, ?_⟩
    · rw [linearIndependent_columns_iff, ← linearIndependent_col_iff]
      exact hE.linearIndependent_selectColumns
    · rw [length_columns, ← hE.rank_eq]
      rfl
  · intro k hk
    obtain ⟨D, hD, hindependent, rfl⟩ := hk
    rw [← linearIndependent_get_iff.mp hindependent, ← finrank_columnSpan, ← span_columns]
    exact Submodule.finrank_mono (Submodule.span_mono hD)

end Grid

/-! Families side by side. -/

namespace Mat

theorem augment_of_rows_eq {A B : Mat} (hA : A.rows = m) (hB : B.rows = m) :
    ∃ (J : Mat) (hJ : J.rows = m), A.augment B = .ok J ∧
      J.vectors hJ = A.vectors hA ++ B.vectors hB := by
  subst hA
  refine ⟨⟨A.rows, A.cols + B.cols, A.rows_pos, Nat.add_pos_left A.cols_pos B.cols,
    A.grid.augment (B.grid.cast hB rfl)⟩, rfl, dif_pos hB, ?_⟩
  rw [B.vectors_eq]
  exact Grid.columns_augment _ _

theorem augmentAll_of_rows_eq {A : Mat} {rest : List Mat} (hA : A.rows = m)
    (h : ∀ B ∈ rest, B.rows = m) :
    ∃ (J : Mat) (hJ : J.rows = m), A.augmentAll rest = .ok J ∧
      J.vectors hJ = A.vectors hA ++ Family.vectors rest h := by
  induction rest generalizing A with
  | nil => exact ⟨A, hA, rfl, (List.append_nil _).symm⟩
  | cons B rest ih =>
    obtain ⟨hB, hrest⟩ := List.forall_mem_cons.mp h
    obtain ⟨J, hJ, haugment, hJvectors⟩ := augment_of_rows_eq hA hB
    obtain ⟨K, hK, hrun, hKvectors⟩ := ih hJ hrest
    refine ⟨K, hK, ?_, ?_⟩
    · rw [augmentAll, haugment]
      exact hrun
    · rw [hKvectors, hJvectors, Family.vectors_cons, List.append_assoc]

theorem augmentAll_of_rows_ne {A : Mat} {rest : List Mat} (h : ∃ B ∈ rest, B.rows ≠ A.rows) :
    ∃ e, A.augmentAll rest = .error (.shape e) := by
  induction rest generalizing A with
  | nil =>
    obtain ⟨B, hB, _⟩ := h
    exact absurd hB List.not_mem_nil
  | cons B rest ih =>
    by_cases hB : B.rows = A.rows
    · obtain ⟨J, hJ, haugment, _⟩ := augment_of_rows_eq rfl hB
      rw [augmentAll, haugment]
      apply ih
      obtain ⟨C, hC, hne⟩ := h
      rcases List.mem_cons.mp hC with heq | hmem
      · exact absurd (heq ▸ hB) hne
      · exact ⟨C, hmem, hJ ▸ hne⟩
    · have haugment : A.augment B = .error (.shape (.augmentation A.shape B.shape)) := dif_neg hB
      rw [augmentAll, haugment]
      exact ⟨_, rfl⟩

end Mat

namespace Family

/-- There is no member, two members differ in their number of rows, or all have the same. -/
theorem rows_cases (family : List Mat) :
    (family = [] ∨ ∃ A ∈ family, ∃ B ∈ family, A.rows ≠ B.rows) ∨
      family ≠ [] ∧ ∃ m, ∀ A ∈ family, A.rows = m := by
  cases family with
  | nil => exact .inl (.inl rfl)
  | cons A rest =>
    by_cases h : ∀ B ∈ A :: rest, B.rows = A.rows
    · right
      exact ⟨List.cons_ne_nil A rest, A.rows, h⟩
    · left
      right
      push Not at h
      obtain ⟨B, hB, hne⟩ := h
      exact ⟨B, hB, A, List.mem_cons_self, hne⟩

theorem joined_of_rows_ne {family : List Mat}
    (h : family = [] ∨ ∃ A ∈ family, ∃ B ∈ family, A.rows ≠ B.rows) (operation : String) :
    ∃ e, joined operation family = .error (.shape e) := by
  cases family with
  | nil => exact ⟨_, rfl⟩
  | cons A rest =>
    apply Mat.augmentAll_of_rows_ne
    by_contra hnone
    push Not at hnone
    have hall : ∀ B ∈ A :: rest, B.rows = A.rows := List.forall_mem_cons.mpr ⟨rfl, hnone⟩
    rcases h with hnil | ⟨B, hB, C, hC, hne⟩
    · exact absurd hnil (List.cons_ne_nil A rest)
    · exact hne ((hall B hB).trans (hall C hC).symm)

theorem joined_of_rows_eq {family : List Mat} (hne : family ≠ []) (h : ∀ A ∈ family, A.rows = m) :
    ∃ (J : Mat) (hJ : J.rows = m), (∀ operation, joined operation family = .ok J) ∧
      J.vectors hJ = vectors family h := by
  cases family with
  | nil => exact absurd rfl hne
  | cons A rest =>
    obtain ⟨hA, hrest⟩ := List.forall_mem_cons.mp h
    obtain ⟨J, hJ, hrun, hJvectors⟩ := Mat.augmentAll_of_rows_eq hA hrest
    exact ⟨J, hJ, fun _ => hrun, hJvectors⟩

theorem isIndependent_of_joined {family : List Mat} {J : Mat}
    (h : joined "is_independent" family = .ok J) :
    isIndependent family = .ok (J.grid.toMatrix.rank == J.cols) := by
  rw [isIndependent, h]
  show J.rank.map _ = _
  rw [J.rank_eq]
  rfl

theorem isBasis_of_joined {family : List Mat} {J : Mat}
    (h : joined "is_basis" family = .ok J) :
    isBasis family = .ok (J.rows == J.cols && J.grid.toMatrix.rank == J.cols) := by
  rw [isBasis, h]
  show (if J.rows == J.cols then J.rank.map _ else _) = _
  rw [J.rank_eq]
  cases J.rows == J.cols <;> rfl

theorem dimension_of_joined {family : List Mat} {J : Mat} (h : joined "dim" family = .ok J) :
    dimension family = .ok J.grid.toMatrix.rank := by
  rw [dimension, h]
  exact J.rank_eq

/-- The three questions about a family have no answer but a refusal for the shapes if there is no
member or the members differ in their number of rows. Otherwise they are answered, and as they
should be of the columns of all members in order: whether these are independent, whether they are
so and every vector of their height is a combination of them, and how many of them can be
independent at most. -/
theorem independence_cases (family : List Mat) :
    ((family = [] ∨ ∃ A ∈ family, ∃ B ∈ family, A.rows ≠ B.rows) ∧
      (∃ e, isIndependent family = .error (.shape e)) ∧
      (∃ e, isBasis family = .error (.shape e)) ∧
      ∃ e, dimension family = .error (.shape e)) ∨
    (family ≠ [] ∧
      ∃ (m : Nat) (h : ∀ A ∈ family, A.rows = m) (independent basis : Bool) (d : Nat),
        isIndependent family = .ok independent ∧ isBasis family = .ok basis ∧
        dimension family = .ok d ∧
        (independent = true ↔ LinearIndependent Scalar (vectors family h).get) ∧
        (basis = true ↔ LinearIndependent Scalar (vectors family h).get ∧
          ∀ v, v ∈ Submodule.span Scalar {u | u ∈ vectors family h}) ∧
        IsGreatest {k | ∃ D, D ⊆ vectors family h ∧ LinearIndependent Scalar D.get ∧
          D.length = k} d) := by
  rcases rows_cases family with hbad | ⟨hne, m, h⟩
  · left
    obtain ⟨e, he⟩ := joined_of_rows_ne hbad "is_independent"
    obtain ⟨e', he'⟩ := joined_of_rows_ne hbad "is_basis"
    obtain ⟨e'', he''⟩ := joined_of_rows_ne hbad "dim"
    refine ⟨hbad, ⟨e, ?_⟩, ⟨e', ?_⟩, e'', ?_⟩
    · rw [isIndependent, he]
      rfl
    · rw [isBasis, he']
      rfl
    · rw [dimension, he'']
      rfl
  · right
    obtain ⟨J, rfl, hjoined, hJvectors⟩ := joined_of_rows_eq hne h
    have hvectors : vectors family h = J.grid.columns := hJvectors.symm
    refine ⟨hne, J.rows, h, _, _, _, isIndependent_of_joined (hjoined _),
      isBasis_of_joined (hjoined _), dimension_of_joined (hjoined _), ?_, ?_, ?_⟩
    · rw [hvectors, Grid.linearIndependent_columns_iff, beq_iff_eq]
    · rw [hvectors, Grid.linearIndependent_columns_iff, Grid.span_columns,
        ← Submodule.eq_top_iff', Grid.columnSpan_eq_top_iff, Bool.and_eq_true, beq_iff_eq,
        beq_iff_eq]
      omega
    · rw [hvectors]
      exact J.grid.isGreatest_rank

end Family

end ExactLinear
