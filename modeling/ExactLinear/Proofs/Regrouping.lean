import ExactLinear.Proofs.Evaluation.Operation
import ExactLinear.Proofs.Independence

/- Families whose members are joined group by group. A matrix is determined by the vectors
   that it writes down (`vectors_inj`), and joining keeps the vectors and their order,
   so it does not matter whether the members are joined at once or in groups first. If
   two members differ in their heights, they do so within a group, which then cannot be
   joined, or the joined groups differ in theirs. -/
namespace ExactLinear

variable {m : Nat}

theorem Mat.vectors_inj {A B : Mat} (hA : A.rows = m) (hB : B.rows = m)
    (h : A.vectors hA = B.vectors hB) : A = B := by
  obtain ⟨m', n, hm, hn, G⟩ := A
  obtain ⟨m'', k, hm', hk, H⟩ := B
  obtain rfl : m' = m := hA
  obtain rfl : m'' = m' := hB
  have hcolumns : G.columns = H.columns := h
  obtain rfl : n = k := by
    rw [← G.length_columns, hcolumns, H.length_columns]
  congr 1
  apply Grid.ext_get
  intro i j
  exact congrFun (congrFun (List.ofFn_injective hcolumns) j) i

namespace Family

/-- The members of each group side by side. -/
def regrouped : List (List Mat) → Except AlgebraError (List Mat)
  | [] => .ok []
  | group :: rest =>
    (joined "augment" group).bind fun A => (regrouped rest).map fun members => A :: members

/-- That a matrix is the members of a group side by side. -/
structure Joins (group : List Mat) (J : Mat) : Prop where
  ne_nil : group ≠ []
  rows_eq : ∀ A ∈ group, A.rows = J.rows
  vectors_eq : J.vectors rfl = vectors group rows_eq

theorem joins_of_rows_eq {group : List Mat} (hne : group ≠ []) (h : ∀ A ∈ group, A.rows = m) :
    ∃ J, (∀ operation, joined operation group = .ok J) ∧ Joins group J := by
  obtain ⟨J, rfl, hjoined, hvectors⟩ := joined_of_rows_eq hne h
  exact ⟨J, hjoined, hne, h, hvectors⟩

/-- The groups can be joined one by one, or in one of them two members differ in height. -/
theorem regrouped_cases {groups : List (List Mat)} (h : ∀ group ∈ groups, group ≠ []) :
    (∃ members, regrouped groups = .ok members ∧ List.Forall₂ Joins groups members) ∨
      (∃ e, regrouped groups = .error (.shape e)) ∧
        ∃ A ∈ groups.flatten, ∃ B ∈ groups.flatten, A.rows ≠ B.rows := by
  induction groups with
  | nil => exact .inl ⟨[], rfl, .nil⟩
  | cons group rest ih =>
    obtain ⟨hgroup, hrest⟩ := List.forall_mem_cons.mp h
    rcases rows_cases group with hbad | ⟨-, m, hrows⟩
    · right
      obtain ⟨e, he⟩ := joined_of_rows_ne hbad "augment"
      obtain ⟨A, hA, B, hB, hne⟩ := hbad.resolve_left hgroup
      refine ⟨⟨e, ?_⟩, A, ?_, B, ?_, hne⟩
      · rw [regrouped, he]
        rfl
      · exact List.mem_append_left _ hA
      · exact List.mem_append_left _ hB
    · obtain ⟨J, hjoined, hJ⟩ := joins_of_rows_eq hgroup hrows
      rcases ih hrest with ⟨members, hmembers, hjoins⟩ | ⟨⟨e, he⟩, A, hA, B, hB, hne⟩
      · left
        refine ⟨J :: members, ?_, .cons hJ hjoins⟩
        rw [regrouped, hjoined, hmembers]
        rfl
      · right
        refine ⟨⟨e, ?_⟩, A, ?_, B, ?_, hne⟩
        · rw [regrouped, hjoined, he]
          rfl
        · exact List.mem_append_right _ hA
        · exact List.mem_append_right _ hB

/-! Heights and vectors of joined groups. -/

theorem rows_of_joins {groups : List (List Mat)} {members : List Mat}
    (h : List.Forall₂ Joins groups members) :
    (∀ A ∈ groups.flatten, A.rows = m) ↔ ∀ J ∈ members, J.rows = m := by
  induction h with
  | nil => simp
  | cons hJ _ ih =>
    rw [List.flatten_cons, List.forall_mem_append, List.forall_mem_cons, ih]
    refine and_congr_left fun _ => ⟨fun hA => ?_, fun hm A hA => (hJ.rows_eq A hA).trans hm⟩
    obtain ⟨A, hmem⟩ := List.exists_mem_of_ne_nil _ hJ.ne_nil
    exact (hJ.rows_eq A hmem).symm.trans (hA A hmem)

theorem flatten_eq_nil_iff_of_joins {groups : List (List Mat)} {members : List Mat}
    (h : List.Forall₂ Joins groups members) : groups.flatten = [] ↔ members = [] := by
  cases h with
  | nil => simp
  | cons hJ _ => simp [hJ.ne_nil]

/-- Joined groups have no member or differ in height if that is so of the members of the groups. -/
theorem rows_ne_of_joins {groups : List (List Mat)} {members : List Mat}
    (h : List.Forall₂ Joins groups members)
    (hbad : groups.flatten = [] ∨ ∃ A ∈ groups.flatten, ∃ B ∈ groups.flatten, A.rows ≠ B.rows) :
    members = [] ∨ ∃ J ∈ members, ∃ K ∈ members, J.rows ≠ K.rows := by
  rcases rows_cases members with hmembers | ⟨hne, m, hrows⟩
  · exact hmembers
  · have hflat := (rows_of_joins h).mpr hrows
    rcases hbad with hnil | ⟨A, hA, B, hB, hdiffer⟩
    · exact absurd ((flatten_eq_nil_iff_of_joins h).mp hnil) hne
    · exact absurd ((hflat A hA).trans (hflat B hB).symm) hdiffer

theorem vectors_append {front back : List Mat} (h : ∀ A ∈ front ++ back, A.rows = m) :
    vectors (front ++ back) h =
      vectors front (fun A hA => h A (List.mem_append_left _ hA)) ++
        vectors back (fun A hA => h A (List.mem_append_right _ hA)) := by
  rw [vectors, List.pmap_append, List.flatten_append]
  rfl

theorem vectors_of_joins {groups : List (List Mat)} {members : List Mat}
    (h : List.Forall₂ Joins groups members) (hflat : ∀ A ∈ groups.flatten, A.rows = m)
    (hmembers : ∀ J ∈ members, J.rows = m) :
    vectors members hmembers = vectors groups.flatten hflat := by
  induction h with
  | nil => rfl
  | @cons group J groups members hJ _ ih =>
    have hhead : ∀ hJm hgroup, J.vectors (m := m) hJm = vectors group hgroup := by
      intro hJm
      subst hJm
      exact fun _ => hJ.vectors_eq
    have hflat' : ∀ A ∈ group ++ groups.flatten, A.rows = m := hflat
    rw [vectors_cons, ih fun A hA => hflat' A (List.mem_append_right _ hA), hhead]
    exact (vectors_append hflat').symm

/-- Members that are joined in groups first come to the same as when they are joined at once. -/
theorem exists_joined_of_joins {groups : List (List Mat)} {members : List Mat}
    (h : List.Forall₂ Joins groups members) (hne : groups.flatten ≠ [])
    (hrows : ∀ A ∈ groups.flatten, A.rows = m) :
    ∃ J, (∀ operation, joined operation groups.flatten = .ok J) ∧
      ∀ operation, joined operation members = .ok J := by
  have hmembers := (rows_of_joins h).mp hrows
  have hmembersne : members ≠ [] := fun hnil => hne ((flatten_eq_nil_iff_of_joins h).mpr hnil)
  obtain ⟨J, hJ, hjoined, hJvectors⟩ := joined_of_rows_eq hne hrows
  obtain ⟨K, hK, hjoined', hKvectors⟩ := joined_of_rows_eq hmembersne hmembers
  have hvectors : K.vectors hK = J.vectors hJ := by
    rw [hKvectors, hJvectors, vectors_of_joins h hrows hmembers]
  rw [Mat.vectors_inj hK hJ hvectors] at hjoined'
  exact ⟨J, hjoined, hjoined'⟩

/-! What is asked of a family. -/

/-- That two families have the same span, dimension, independence and basis property, and are
augmented to the same matrix. -/
structure SameAnswers (family members : List Mat) : Prop where
  span : ∃ S, Family.span family = .ok S ∧ Family.span members = .ok S
  dimension : ∃ d, Family.dimension family = .ok d ∧ Family.dimension members = .ok d
  isIndependent : ∃ b, Family.isIndependent family = .ok b ∧ Family.isIndependent members = .ok b
  isBasis : ∃ b, Family.isBasis family = .ok b ∧ Family.isBasis members = .ok b
  augment : ∃ J, Builtin.augment.apply (family.map .matrix) = .ok (.matrix J) ∧
    Builtin.augment.apply (members.map .matrix) = .ok (.matrix J)

/-- That whatever is asked of a family is refused for the shapes. -/
structure Refused (family : List Mat) : Prop where
  span : ∃ e, Family.span family = .error (.shape e)
  dimension : ∃ e, Family.dimension family = .error (.shape e)
  isIndependent : ∃ e, Family.isIndependent family = .error (.shape e)
  isBasis : ∃ e, Family.isBasis family = .error (.shape e)
  augment : ∃ e, Builtin.augment.apply (family.map .matrix) = .error (.algebra (.shape e))

theorem ne_nil_of_joined {family : List Mat} {J : Mat} {operation : String}
    (h : joined operation family = .ok J) : family ≠ [] := by
  intro hnil
  subst hnil
  cases h

/-- Members are augmented as they are joined for any other question. -/
theorem augment_apply {family : List Mat} (hne : family ≠ []) :
    Builtin.augment.apply (family.map .matrix) = ofAlgebra .matrix (joined "augment" family) := by
  rw [Builtin.apply, Builtin.onMatrices, Builtin.asMatrices_map]
  cases family with
  | nil => exact absurd rfl hne
  | cons A rest => rfl

theorem augment_of_joined {family : List Mat} {J : Mat} (h : joined "augment" family = .ok J) :
    Builtin.augment.apply (family.map .matrix) = .ok (.matrix J) := by
  rw [augment_apply (ne_nil_of_joined h), h]
  rfl

theorem span_of_joined {family : List Mat} {J : Mat} (h : joined "span" family = .ok J) :
    span family = J.columnSpace := by
  rw [span, h]
  rfl

theorem SameAnswers.of_joined {family members : List Mat} {J : Mat}
    (h : ∀ operation, joined operation family = .ok J)
    (h' : ∀ operation, joined operation members = .ok J) : SameAnswers family members := by
  obtain ⟨E, hE⟩ := Elimination.exists_eliminates J.grid .reduced
  have hspace : ∃ S, J.columnSpace = .ok S := by
    rw [Mat.columnSpace, Mat.eliminate, hE.eliminate_eq]
    exact ⟨_, rfl⟩
  obtain ⟨S, hS⟩ := hspace
  constructor
  case span => exact ⟨S, (span_of_joined (h _)).trans hS, (span_of_joined (h' _)).trans hS⟩
  case dimension => exact ⟨_, dimension_of_joined (h _), dimension_of_joined (h' _)⟩
  case isIndependent => exact ⟨_, isIndependent_of_joined (h _), isIndependent_of_joined (h' _)⟩
  case isBasis => exact ⟨_, isBasis_of_joined (h _), isBasis_of_joined (h' _)⟩
  case augment => exact ⟨J, augment_of_joined (h _), augment_of_joined (h' _)⟩

theorem Refused.of_rows_ne {family : List Mat}
    (h : family = [] ∨ ∃ A ∈ family, ∃ B ∈ family, A.rows ≠ B.rows) : Refused family := by
  have hbind : ∀ {α : Type} (operation : String) (f : Mat → Except AlgebraError α),
      ∃ e, (joined operation family).bind f = .error (.shape e) := by
    intro α operation f
    obtain ⟨e, he⟩ := joined_of_rows_ne h operation
    exact ⟨e, by rw [he]; rfl⟩
  constructor
  case span => exact hbind _ _
  case dimension => exact hbind _ _
  case isIndependent => exact hbind _ _
  case isBasis => exact hbind _ _
  case augment =>
    by_cases hne : family = []
    · subst hne
      exact ⟨_, rfl⟩
    · obtain ⟨e, he⟩ := joined_of_rows_ne h "augment"
      refine ⟨e, ?_⟩
      rw [augment_apply hne, he]
      rfl

/-- It does not matter whether the members of a family are joined at once or in consecutive groups
first. If there are members and all have the same height, the groups can be joined, and what is
asked of the joined groups has the answer that it has for the members. Otherwise all that is asked
of the members is refused for the shapes, and so is joining the groups or else all that is asked of
the joined groups. -/
theorem regrouped_answers {groups : List (List Mat)} (h : ∀ group ∈ groups, group ≠ []) :
    (groups.flatten ≠ [] ∧ (∃ m, ∀ A ∈ groups.flatten, A.rows = m) ∧
      ∃ members, regrouped groups = .ok members ∧ SameAnswers groups.flatten members) ∨
    ((groups.flatten = [] ∨ ∃ A ∈ groups.flatten, ∃ B ∈ groups.flatten, A.rows ≠ B.rows) ∧
      Refused groups.flatten ∧
      ((∃ e, regrouped groups = .error (.shape e)) ∨
        ∃ members, regrouped groups = .ok members ∧ Refused members)) := by
  rcases rows_cases groups.flatten with hbad | ⟨hne, m, hrows⟩
  · right
    refine ⟨hbad, .of_rows_ne hbad, ?_⟩
    rcases regrouped_cases h with ⟨members, hmembers, hjoins⟩ | ⟨hrefused, -⟩
    · right
      exact ⟨members, hmembers, .of_rows_ne (rows_ne_of_joins hjoins hbad)⟩
    · exact .inl hrefused
  · left
    refine ⟨hne, ⟨m, hrows⟩, ?_⟩
    rcases regrouped_cases h with ⟨members, hmembers, hjoins⟩ | ⟨-, A, hA, B, hB, hdiffer⟩
    · obtain ⟨J, hjoined, hjoined'⟩ := exists_joined_of_joins hjoins hne hrows
      exact ⟨members, hmembers, .of_joined hjoined hjoined'⟩
    · exact absurd ((hrows A hA).trans (hrows B hB).symm) hdiffer

/-- Four vectors of two entries in groups of one, two and one. -/
def groupsOfVectors : List (List Mat) :=
  let vector : Scalar → Scalar → Mat := fun a b =>
    ⟨2, 1, Nat.two_pos, Nat.one_pos, Grid.ofFn fun i _ => if i = 0 then a else b⟩
  [[vector 1 2], [vector 2 4, vector 0 (1 / 3)], [vector 5 6]]

/-- The groups of vectors can be joined, and have the same answers as the vectors. -/
theorem regrouped_answers_vectors :
    (∀ group ∈ groupsOfVectors, group ≠ []) ∧
      ∃ members, regrouped groupsOfVectors = .ok members ∧
        SameAnswers groupsOfVectors.flatten members ∧ dimension members = .ok 2 ∧
        members.map Mat.toRows = [[[1], [2]], [[2, 0], [4, 1 / 3]], [[5], [6]]] := by
  have hgroups : ∀ group ∈ groupsOfVectors, group ≠ [] := by decide
  have hjoin : (regrouped groupsOfVectors).map (fun members => members.map Mat.toRows) =
      .ok [[[1], [2]], [[2, 0], [4, 1 / 3]], [[5], [6]]] := by decide +kernel
  have hdimension : dimension groupsOfVectors.flatten = .ok 2 := by decide +kernel
  refine ⟨hgroups, ?_⟩
  rcases regrouped_answers hgroups with ⟨-, -, members, hmembers, hsame⟩ | ⟨-, hrefused, -⟩
  · refine ⟨members, hmembers, hsame, ?_, ?_⟩
    · obtain ⟨d, hd, hd'⟩ := hsame.dimension
      rw [hd', ← hd, hdimension]
    · rw [hmembers] at hjoin
      exact Except.ok.inj hjoin
  · obtain ⟨e, he⟩ := hrefused.dimension
    cases hdimension.symm.trans he

end Family

end ExactLinear
