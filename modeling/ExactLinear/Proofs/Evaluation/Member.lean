import ExactLinear.Evaluation.Expression

/- Lists of expressions are evaluated member by member. So what relates evaluations of
   the members, in whatever environments, relates those of the lists. -/
namespace ExactLinear

section
variable {ε α β γ : Type} {f g : α → Except ε β} {xs : List α}

theorem mapM_congr (h : ∀ x ∈ xs, f x = g x) : xs.mapM f = xs.mapM g := by
  induction xs with
  | nil => rfl
  | cons x xs ih =>
    obtain ⟨hx, hxs⟩ := List.forall_mem_cons.mp h
    rw [List.mapM_cons, List.mapM_cons, hx, ih hxs]

/-- A list has values if the members have them one by one, whatever says so of a member. -/
theorem mapM_eq_ok_iff {k : α → γ} {m : β → γ} (h : ∀ x y, f x = .ok y ↔ k x = m y)
    {ys : List β} : xs.mapM f = .ok ys ↔ xs.map k = ys.map m := by
  induction xs generalizing ys with
  | nil => cases ys <;> simp [pure, Except.pure]
  | cons x xs ih =>
    have hcons : (x :: xs).mapM f = .ok ys ↔
        ∃ y, f x = .ok y ∧ ∃ zs, xs.mapM f = .ok zs ∧ y :: zs = ys := by
      rw [List.mapM_cons]
      cases f x with
      | error e => simp [bind, Except.bind]
      | ok y => cases xs.mapM f <;> simp [bind, Except.bind, pure, Except.pure]
    rw [hcons]
    cases ys with
    | nil => simp
    | cons y ys => simp [ih, h]

/-- The failure of a list is that of one of its members. -/
theorem exists_of_mapM_eq_error {e : ε} (h : xs.mapM f = .error e) : ∃ x ∈ xs, f x = .error e := by
  induction xs with
  | nil => cases h
  | cons x xs ih =>
    rw [List.mapM_cons] at h
    cases hx : f x with
    | error e' =>
      rw [hx] at h
      cases h
      exact ⟨x, List.mem_cons_self, hx⟩
    | ok y =>
      rw [hx] at h
      cases hxs : xs.mapM f with
      | error e' =>
        rw [hxs] at h
        cases h
        obtain ⟨x', hmem, hx'⟩ := ih hxs
        exact ⟨x', List.mem_cons_of_mem x hmem, hx'⟩
      | ok ys =>
        rw [hxs] at h
        cases h

end

namespace Environment
variable (env : Environment)

/-- The scalar that an entry of a written matrix is. -/
def entry (e : Expr) : Except RuntimeError Scalar :=
  (env.evaluate e).bind fun value => onLine e.line (value.asScalar entryContext)

theorem evaluateAll_eq (es : List Expr) : env.evaluateAll es = es.mapM env.evaluate := by
  induction es with
  | nil => rfl
  | cons e es ih =>
    rw [List.mapM_cons, ← ih, evaluateAll]
    cases env.evaluate e with
    | error error => rfl
    | ok value => cases env.evaluateAll es <;> rfl

theorem evaluateRow_eq (es : List Expr) : env.evaluateRow es = es.mapM env.entry := by
  induction es with
  | nil => rfl
  | cons e es ih =>
    rw [List.mapM_cons, ← ih, evaluateRow, entry]
    cases env.evaluate e with
    | error error => rfl
    | ok value =>
      cases value.asScalar entryContext with
      | error cause => rfl
      | ok q => cases env.evaluateRow es <;> rfl

theorem evaluateRows_eq (entries : List (List Expr)) :
    env.evaluateRows entries = entries.mapM fun row => row.mapM env.entry := by
  induction entries with
  | nil => rfl
  | cons row entries ih =>
    rw [List.mapM_cons, ← ih, ← evaluateRow_eq, evaluateRows]
    cases env.evaluateRow row with
    | error error => rfl
    | ok qs => cases env.evaluateRows entries <;> rfl

end Environment

end ExactLinear
