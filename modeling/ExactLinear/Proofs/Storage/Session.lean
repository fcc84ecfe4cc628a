import ExactLinear.Proofs.Storage.Content
import ExactLinear.Storage.Session

/- Sessions with stored values never stop the program. Stored values that come from
   values have the right number of entries, and every request answered with them is
   answered as it is with the values; so everything that is bound or given back comes
   from a value again. -/
namespace ExactLinear.Storage

/-! Well-formed values. -/

/-- A fraction in lowest terms, over a positive number. -/
def Reduced (q : Scalar) : Prop := 0 < q.den ∧ q.num.natAbs.Coprime q.den

/-- A matrix that has an entry, and a value for each entry and no more. -/
structure Table.WellFormed (T : Table) : Prop where
  rows_pos : 1 ≤ T.rows
  cols_pos : 1 ≤ T.cols
  length_values : T.values.length = T.rows * T.cols
  reduced : ∀ q ∈ T.values, Reduced q

def Content.WellFormed : Content → Prop
  | .scalar q => Reduced q
  | .table T => T.WellFormed
  | .boolean _ => True

theorem reduced (q : Scalar) : Reduced q := ⟨q.den_pos, q.reduced⟩

/-- The well-formed contents are those that come from values. -/
theorem Content.wellFormed_iff {c : Content} : c.WellFormed ↔ ∃ value, c = ofValue value := by
  refine ⟨?_, ?_⟩
  · intro h
    cases c with
    | scalar q => exact ⟨.scalar q, rfl⟩
    | boolean b => exact ⟨.boolean b, rfl⟩
    | table T =>
      obtain ⟨hrows, hcols, hlength, -⟩ := h
      have hsize : T.rows * T.cols = T.values.toArray.size := hlength.symm
      refine ⟨.matrix ⟨T.rows, T.cols, hrows, hcols, Grid.ofValues T.values.toArray hsize⟩, ?_⟩
      exact congrArg table (Table.eq_ofMat _ _ (Grid.entries_ofValues T.values hsize).symm)
  · intro h
    obtain ⟨value, rfl⟩ := h
    cases value with
    | scalar q => exact reduced q
    | boolean b => trivial
    | matrix A => exact ⟨A.rows_pos, A.cols_pos, A.grid.length_entries, fun q _ => reduced q⟩

namespace Bindings

/-- The bindings of an environment, with their values as they are stored. -/
def ofEnvironment (env : Environment) : Bindings := fun name => (env.get? name).map .ofValue

theorem ofEnvironment_set (env : Environment) (name : String) (value : Value) :
    ofEnvironment (env.set name value) = (ofEnvironment env).set name (.ofValue value) := by
  apply funext
  intro other
  rw [ofEnvironment, Environment.get?_set, set]
  split <;> rfl

/-! Evaluation. -/

theorem onLine_attempt {α β : Type} (line : Nat) (r : Except RuntimeCause α) (g : α → β) :
    onLine line (attempt (r.map g)) = attempt ((ExactLinear.onLine line r).map g) := by
  cases r <;> rfl

section
variable {env : Environment}

theorem evaluateAll_eq {es : List Expr}
    (h : ∀ e ∈ es, (ofEnvironment env).evaluate e = attempt ((env.evaluate e).map .ofValue)) :
    (ofEnvironment env).evaluateAll es =
      attempt ((env.evaluateAll es).map (List.map .ofValue)) := by
  induction es with
  | nil => rfl
  | cons e es ih =>
    obtain ⟨he, hes⟩ := List.forall_mem_cons.mp h
    rw [evaluateAll, he, ih hes, Environment.evaluateAll]
    cases env.evaluate e with
    | error e => rfl
    | ok value => cases env.evaluateAll es <;> rfl

theorem evaluateRow_eq {es : List Expr}
    (h : ∀ e ∈ es, (ofEnvironment env).evaluate e = attempt ((env.evaluate e).map .ofValue)) :
    (ofEnvironment env).evaluateRow es = attempt (env.evaluateRow es) := by
  induction es with
  | nil => rfl
  | cons e es ih =>
    obtain ⟨he, hes⟩ := List.forall_mem_cons.mp h
    rw [evaluateRow, he, ih hes, Environment.evaluateRow]
    cases env.evaluate e with
    | error e => rfl
    | ok value =>
      cases value with
      | scalar q => cases env.evaluateRow es <;> rfl
      | matrix A | boolean b => rfl

theorem evaluateRows_eq {entries : List (List Expr)}
    (h : ∀ row ∈ entries, ∀ e ∈ row,
      (ofEnvironment env).evaluate e = attempt ((env.evaluate e).map .ofValue)) :
    (ofEnvironment env).evaluateRows entries = attempt (env.evaluateRows entries) := by
  induction entries with
  | nil => rfl
  | cons row entries ih =>
    obtain ⟨hrow, hentries⟩ := List.forall_mem_cons.mp h
    rw [evaluateRows, evaluateRow_eq hrow, ih hentries, Environment.evaluateRows]
    cases env.evaluateRow row with
    | error e => rfl
    | ok qs => cases env.evaluateRows entries <;> rfl

end

theorem evaluate_eq (env : Environment) (e : Expr) :
    (ofEnvironment env).evaluate e = attempt ((env.evaluate e).map .ofValue) := by
  induction e using Expr.induction with
  | literal value line => rfl
  | var name line =>
    rw [evaluate, Environment.evaluate, ofEnvironment]
    cases env.get? name <;> rfl
  | neg operand line ih =>
    rw [evaluate, ih, Environment.evaluate]
    refine attempt_bind fun value => ?_
    rw [Content.negate_eq, onLine_attempt]
  | binary op left right line ihl ihr =>
    rw [evaluate, ihl, Environment.evaluate]
    refine attempt_bind fun l => ?_
    rw [ihr]
    refine attempt_bind fun r => ?_
    rw [Content.combine_eq, onLine_attempt]
  | call f arguments line ih =>
    rw [evaluate, Environment.evaluate]
    by_cases harity : f.arity.accepts arguments.length = true
    · rw [if_pos harity, if_pos harity, evaluateAll_eq ih]
      cases hvalues : env.evaluateAll arguments with
      | error e => rfl
      | ok values =>
        -- Arity was checked on the expressions, and there are as many values.
        rw [Environment.length_eq_of_evaluateAll hvalues] at harity
        show onLine line (Content.call f (values.map .ofValue)) = _
        rw [Content.call_eq harity, onLine_attempt]
        rfl
    · rw [if_neg harity, if_neg harity]
      rfl
  | rows entries line ih =>
    rw [evaluate, evaluateRows_eq ih, Environment.evaluate]
    cases env.evaluateRows entries with
    | error e => rfl
    | ok values =>
      show onLine line (Content.ofAlgebra .table (Table.ofRows values)) = _
      rw [Content.ofAlgebra_table (Table.ofRows_eq values), onLine_attempt]
      rfl

/-! Statements. -/

/-- An outcome, with values as they are stored. -/
def ofOutcome {ε : Type} (o : Outcome ε) : Bindings × Checked ε (Option Content) :=
  (ofEnvironment o.1, attempt (o.2.map (Option.map .ofValue)))

theorem executeAll_eq_of {ss : List Statement}
    (h : ∀ s ∈ ss, ∀ env : Environment, (ofEnvironment env).execute s = ofOutcome (env.execute s))
    (env : Environment) (last : Option Value) :
    (ofEnvironment env).executeAll (last.map .ofValue) ss = ofOutcome (env.executeAll last ss) := by
  induction ss generalizing env last with
  | nil => rfl
  | cons s ss ih =>
    obtain ⟨hs, hss⟩ := List.forall_mem_cons.mp h
    rw [executeAll, hs, Environment.executeAll]
    rcases env.execute s with ⟨after, e | value⟩
    · rfl
    · have hlast : (value.map Content.ofValue).or (last.map .ofValue) =
          (value.or last).map .ofValue := by
        cases value <;> rfl
      show (ofEnvironment after).executeAll ((value.map Content.ofValue).or (last.map .ofValue)) ss
        = _
      rw [hlast]
      exact ih hss after (value.or last)

theorem execute_eq (s : Statement) (env : Environment) :
    (ofEnvironment env).execute s = ofOutcome (env.execute s) := by
  induction s using Statement.induction generalizing env with
  | assign name e line =>
    rw [execute, evaluate_eq, Environment.execute]
    cases env.evaluate e with
    | ok value =>
      show ((ofEnvironment env).set name (.ofValue value), Except.ok none) = _
      rw [← ofEnvironment_set]
      rfl
    | error e => rfl
  | evaluate e line =>
    rw [execute, evaluate_eq, Environment.execute]
    cases env.evaluate e <;> rfl
  | block body line ih =>
    rw [execute, Environment.execute]
    exact executeAll_eq_of ih env none

/-! Requests. -/

theorem run_eq (env : Environment) (text : String) :
    (ofEnvironment env).run text = ofOutcome (env.run text) := by
  rw [run, Environment.run]
  cases parse text with
  | error e => rfl
  | ok statements =>
    have hrun : (ofEnvironment env).executeAll none statements =
        ofOutcome (env.executeAll none statements) :=
      executeAll_eq_of (fun s _ env => execute_eq s env) env none
    simp only [hrun]
    rcases env.executeAll none statements with ⟨after, e | value⟩ <;> rfl

theorem answer_eq (env : Environment) (r : Request) :
    (ofEnvironment env).answer r = ofOutcome (env.answer r) := by
  cases r with
  | run text => exact run_eq env text
  | execute s =>
    rw [answer, execute_eq, Environment.answer]
    rcases env.execute s with ⟨after, e | value⟩ <;> rfl
  | evaluate e =>
    rw [answer, evaluate_eq, Environment.answer]
    cases env.evaluate e <;> rfl

/-- A session with stored values is the session with the values themselves. -/
theorem answerAll_eq (env : Environment) (requests : List Request) :
    (ofEnvironment env).answerAll requests =
      (ofEnvironment (env.answerAll requests).1,
        (env.answerAll requests).2.map fun r => attempt (r.map (Option.map .ofValue))) := by
  induction requests generalizing env with
  | nil => rfl
  | cons r rest ih =>
    rw [answerAll, answer_eq, Environment.answerAll]
    simp only [ofOutcome, ih, List.map_cons]

/-! Sessions from the beginning. -/

def WellFormed (names : Bindings) : Prop := ∀ name c, names name = some c → c.WellFormed

theorem wellFormed_ofEnvironment (env : Environment) : (ofEnvironment env).WellFormed := by
  intro name c h
  obtain ⟨value, -, rfl⟩ := Option.map_eq_some_iff.mp h
  exact Content.wellFormed_iff.mpr ⟨value, rfl⟩

/-- Whatever is requested one after the other, beginning with no bindings: the bindings and the
answers are the stored ones of the session with values, no answer is that the program has
stopped, and all that is given back or bound is well formed. -/
theorem session_safe (requests : List Request) :
    empty.answerAll requests =
      (ofEnvironment (Environment.empty.answerAll requests).1,
        (Environment.empty.answerAll requests).2.map fun r =>
          attempt (r.map (Option.map .ofValue))) ∧
    (∀ r ∈ (empty.answerAll requests).2, ∀ p, r ≠ .error (.panic p)) ∧
    (∀ r ∈ (empty.answerAll requests).2, ∀ c, r = .ok (some c) → c.WellFormed) ∧
    (empty.answerAll requests).1.WellFormed := by
  have hempty : empty = ofEnvironment .empty := rfl
  rw [hempty, answerAll_eq]
  refine ⟨rfl, ?_, ?_, wellFormed_ofEnvironment _⟩
  · intro r hr p
    obtain ⟨answer, -, rfl⟩ := List.mem_map.mp hr
    exact attempt_ne_panic p
  · intro r hr c hc
    obtain ⟨answer, -, rfl⟩ := List.mem_map.mp hr
    obtain ⟨value, hvalue⟩ : ∃ value, c = Content.ofValue value := by
      rcases answer with e | _ | value
      · simp [attempt, Except.map] at hc
      · simp [attempt, Except.map] at hc
      · exact ⟨value, by simpa [attempt, Except.map] using hc.symm⟩
    exact Content.wellFormed_iff.mpr ⟨value, hvalue⟩

end Bindings

end ExactLinear.Storage
