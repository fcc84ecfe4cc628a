import ExactLinear.Proofs.Evaluation.Member

/- What evaluations of lists come to. A list of arguments has values if each of them
   has one; a failure of the list is that of one of its members. -/
namespace ExactLinear

/-! Computations one after the other. -/

section
variable {ε α β : Type} {x : Except ε α} {f : α → Except ε β} {g : α → β} {b : β} {e : ε}

theorem bind_eq_ok_iff : x.bind f = .ok b ↔ ∃ a, x = .ok a ∧ f a = .ok b := by
  cases x <;> simp [Except.bind]

theorem bind_eq_error_iff :
    x.bind f = .error e ↔ x = .error e ∨ ∃ a, x = .ok a ∧ f a = .error e := by
  cases x <;> simp [Except.bind]

theorem map_eq_ok_iff : x.map g = .ok b ↔ ∃ a, x = .ok a ∧ g a = b := by
  cases x <;> simp [Except.map]

end

theorem onLine_eq_ok_iff {α : Type} {line : Nat} {r : Except RuntimeCause α} {a : α} :
    onLine line r = .ok a ↔ r = .ok a := by
  cases r <;> simp [onLine]

theorem onLine_eq_error_iff {α : Type} {line : Nat} {r : Except RuntimeCause α}
    {error : RuntimeError} :
    onLine line r = .error error ↔ r = .error error.cause ∧ error.line = line := by
  cases r with
  | ok a => simp [onLine]
  | error cause =>
    obtain ⟨c, l⟩ := error
    simp [onLine, eq_comm]

theorem asScalar_eq_ok_iff {context : String} {value : Value} {q : Scalar} :
    value.asScalar context = .ok q ↔ value = .scalar q := by
  cases value <;> simp [Value.asScalar]

theorem asMatrix_eq_ok_iff {context : String} {value : Value} {A : Mat} :
    value.asMatrix context = .ok A ↔ value = .matrix A := by
  cases value <;> simp [Value.asMatrix]

/-! Lists of expressions. -/

namespace Environment
variable {env : Environment} {es : List Expr} {entries : List (List Expr)} {error : RuntimeError}

theorem evaluateAll_eq_ok_iff {values : List Value} :
    env.evaluateAll es = .ok values ↔ es.map env.evaluate = values.map .ok := by
  rw [evaluateAll_eq]
  exact mapM_eq_ok_iff fun _ _ => Iff.rfl

theorem length_eq_of_evaluateAll {values : List Value} (h : env.evaluateAll es = .ok values) :
    es.length = values.length := by
  simpa using congrArg List.length (evaluateAll_eq_ok_iff.mp h)

theorem exists_of_mem_arguments {values : List Value} (h : env.evaluateAll es = .ok values)
    {e : Expr} (he : e ∈ es) : ∃ value ∈ values, env.evaluate e = .ok value := by
  have hmem : env.evaluate e ∈ values.map .ok :=
    evaluateAll_eq_ok_iff.mp h ▸ List.mem_map_of_mem he
  obtain ⟨value, hvalue, heq⟩ := List.mem_map.mp hmem
  exact ⟨value, hvalue, heq.symm⟩

theorem forall_kind_of_evaluateAll {values : List Value} {k : Kind}
    (h : env.evaluateAll es = .ok values)
    (hes : ∀ e ∈ es, ∀ {value}, env.evaluate e = .ok value → value.kind = k) :
    ∀ value ∈ values, value.kind = k := by
  intro value hvalue
  have hmem : Except.ok value ∈ es.map env.evaluate :=
    evaluateAll_eq_ok_iff.mp h ▸ List.mem_map_of_mem hvalue
  obtain ⟨e, he, heq⟩ := List.mem_map.mp hmem
  exact hes e he heq

theorem evaluateAll_eq_error (h : env.evaluateAll es = .error error) :
    ∃ e ∈ es, env.evaluate e = .error error := by
  rw [evaluateAll_eq] at h
  exact exists_of_mapM_eq_error h

theorem entry_eq_ok_iff {e : Expr} {q : Scalar} :
    env.entry e = .ok q ↔ env.evaluate e = .ok (.scalar q) := by
  simp [entry, bind_eq_ok_iff, onLine_eq_ok_iff, asScalar_eq_ok_iff]

theorem entry_eq_error {e : Expr} (h : env.entry e = .error error) :
    env.evaluate e = .error error ∨ ∃ value, env.evaluate e = .ok value ∧ value.kind ≠ .scalar := by
  rcases bind_eq_error_iff.mp h with h | ⟨value, hvalue, h⟩
  · exact .inl h
  · refine .inr ⟨value, hvalue, ?_⟩
    obtain ⟨hcause, -⟩ := onLine_eq_error_iff.mp h
    cases value <;> simp_all [Value.asScalar, Value.kind]

theorem evaluateRow_eq_ok_iff {row : List Scalar} :
    env.evaluateRow es = .ok row ↔ es.map env.evaluate = row.map fun q => .ok (.scalar q) := by
  rw [evaluateRow_eq]
  exact mapM_eq_ok_iff fun _ _ => entry_eq_ok_iff

theorem evaluateRows_eq_ok_iff {rows : List (List Scalar)} :
    env.evaluateRows entries = .ok rows ↔
      entries.map (List.map env.evaluate) = rows.map (List.map fun q => .ok (.scalar q)) := by
  rw [evaluateRows_eq]
  exact mapM_eq_ok_iff fun row _ => evaluateRow_eq env row ▸ evaluateRow_eq_ok_iff

theorem exists_of_mem_entries {rows : List (List Scalar)} (h : env.evaluateRows entries = .ok rows)
    {row : List Expr} (hrow : row ∈ entries) {e : Expr} (he : e ∈ row) :
    ∃ q, env.evaluate e = .ok (.scalar q) := by
  have hmem : row.map env.evaluate ∈ rows.map (List.map fun q => .ok (.scalar q)) :=
    evaluateRows_eq_ok_iff.mp h ▸ List.mem_map_of_mem hrow
  obtain ⟨qs, -, hqs⟩ := List.mem_map.mp hmem
  have hmem : env.evaluate e ∈ qs.map fun q => .ok (.scalar q) := hqs ▸ List.mem_map_of_mem he
  obtain ⟨q, -, hq⟩ := List.mem_map.mp hmem
  exact ⟨q, hq.symm⟩

theorem evaluateRows_eq_error (h : env.evaluateRows entries = .error error) :
    ∃ row ∈ entries, ∃ e ∈ row, env.evaluate e = .error error ∨
      ∃ value, env.evaluate e = .ok value ∧ value.kind ≠ .scalar := by
  rw [evaluateRows_eq] at h
  obtain ⟨row, hrow, h⟩ := exists_of_mapM_eq_error h
  obtain ⟨e, he, h⟩ := exists_of_mapM_eq_error h
  exact ⟨row, hrow, e, he, entry_eq_error h⟩

end Environment

end ExactLinear
