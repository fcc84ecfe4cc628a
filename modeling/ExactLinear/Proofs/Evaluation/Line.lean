import ExactLinear.Proofs.Evaluation.Member
import ExactLinear.Syntax.Line

/- Lines do not matter to what a program computes. With the lines of a tree changed,
   evaluation gives the same value, or the same failure on the changed line. -/
namespace ExactLinear

variable {α β : Type} (f : Nat → Nat)

def RuntimeError.mapLine (e : RuntimeError) : RuntimeError := ⟨e.cause, f e.line⟩

/-- The outcome of an evaluation, with the line of a failure changed. -/
abbrev mapFailure (r : Except RuntimeError α) : Except RuntimeError α :=
  r.mapError (RuntimeError.mapLine f)

theorem mapFailure_bind (r : Except RuntimeError α) (g : α → Except RuntimeError β) :
    mapFailure f (r.bind g) = (mapFailure f r).bind fun x => mapFailure f (g x) := by
  cases r <;> rfl

theorem mapFailure_mapM (g : α → Except RuntimeError β) (xs : List α) :
    mapFailure f (xs.mapM g) = xs.mapM fun x => mapFailure f (g x) := by
  induction xs with
  | nil => rfl
  | cons x xs ih =>
    rw [List.mapM_cons, List.mapM_cons, ← ih]
    cases g x with
    | error e => rfl
    | ok y => cases xs.mapM g <;> rfl

theorem mapFailure_onLine (line : Nat) (r : Except RuntimeCause α) :
    mapFailure f (onLine line r) = onLine (f line) r := by
  cases r <;> rfl

namespace Environment
variable (env : Environment)

theorem entry_mapLine {e : Expr} (h : env.evaluate (e.mapLine f) = mapFailure f (env.evaluate e)) :
    env.entry (e.mapLine f) = mapFailure f (env.entry e) := by
  rw [entry, h, Expr.line_mapLine, entry, mapFailure_bind]
  simp only [mapFailure_onLine]

theorem evaluate_mapLine (e : Expr) :
    env.evaluate (e.mapLine f) = mapFailure f (env.evaluate e) := by
  induction e using Expr.induction with
  | literal value line => rfl
  | var name line =>
    simp only [Expr.mapLine_var, evaluate]
    cases env.get? name <;> rfl
  | neg operand line ih =>
    simp only [Expr.mapLine_neg, evaluate, ih, mapFailure_bind, mapFailure_onLine]
  | binary op left right line ihl ihr =>
    simp only [Expr.mapLine_binary, evaluate, ihl, ihr, mapFailure_bind, mapFailure_onLine]
  | call function arguments line ih =>
    have hall : env.evaluateAll (arguments.map (Expr.mapLine f)) =
        mapFailure f (env.evaluateAll arguments) := by
      rw [evaluateAll_eq, evaluateAll_eq, List.mapM_map, mapFailure_mapM]
      exact mapM_congr ih
    simp only [Expr.mapLine_call, evaluate, List.length_map, hall]
    split
    · simp only [mapFailure_bind, mapFailure_onLine]
    · rfl
  | rows entries line ih =>
    have hrows : env.evaluateRows (entries.map (List.map (Expr.mapLine f))) =
        mapFailure f (env.evaluateRows entries) := by
      rw [evaluateRows_eq, evaluateRows_eq, List.mapM_map, mapFailure_mapM]
      refine mapM_congr fun row hrow => ?_
      rw [Function.comp, List.mapM_map, mapFailure_mapM]
      exact mapM_congr fun e he => entry_mapLine f env (ih row hrow e he)
    simp only [Expr.mapLine_rows, evaluate, hrows, mapFailure_bind, mapFailure_onLine]

end Environment

/-- The outcome of a run, with the line of a failure changed. -/
def Outcome.mapLine (o : Outcome RuntimeError) : Outcome RuntimeError := (o.1, mapFailure f o.2)

namespace Environment

theorem executeAll_map {ss : List Statement}
    (hss : ∀ s ∈ ss, ∀ env : Environment,
      env.execute (s.mapLine f) = Outcome.mapLine f (env.execute s))
    (env : Environment) (last : Option Value) :
    env.executeAll last (ss.map (Statement.mapLine f)) =
      Outcome.mapLine f (env.executeAll last ss) := by
  induction ss generalizing env last with
  | nil => rfl
  | cons s ss ih =>
    obtain ⟨hs, hss⟩ := List.forall_mem_cons.mp hss
    simp only [List.map_cons, executeAll, hs]
    rcases env.execute s with ⟨after, e | value⟩
    · rfl
    · exact ih hss after (value.or last)

theorem execute_mapLine (s : Statement) (env : Environment) :
    env.execute (s.mapLine f) = Outcome.mapLine f (env.execute s) := by
  induction s using Statement.induction generalizing env with
  | assign name e line =>
    simp only [Statement.mapLine_assign, execute, evaluate_mapLine]
    cases env.evaluate e <;> rfl
  | evaluate e line =>
    simp only [Statement.mapLine_evaluate, execute, evaluate_mapLine]
    cases env.evaluate e <;> rfl
  | block body line ih =>
    simp only [Statement.mapLine_block, execute]
    exact executeAll_map f ih env none

theorem executeAll_mapLine (env : Environment) (last : Option Value) (ss : List Statement) :
    env.executeAll last (ss.map (Statement.mapLine f)) =
      Outcome.mapLine f (env.executeAll last ss) :=
  executeAll_map f (fun s _ env => execute_mapLine f s env) env last

/-- A run that succeeds does so in the same way without the lines. -/
theorem executeAll_unlined_eq_ok {env after : Environment} {last value : Option Value}
    {ss : List Statement} :
    env.executeAll last (ss.map Statement.unlined) = (after, .ok value) ↔
      env.executeAll last ss = (after, .ok value) := by
  rw [executeAll_mapLine]
  rcases env.executeAll last ss with ⟨middle, e | result⟩
  · refine ⟨?_, ?_⟩ <;> nofun
  · exact Iff.rfl

end Environment

end ExactLinear
