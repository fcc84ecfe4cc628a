import ExactLinear.Evaluation.Assignment
import ExactLinear.Proofs.Evaluation.Member

/- What a statement depends on and what it changes. It sees an environment only through
   the names it reads: where these have the same values, it comes to the same result
   and makes the same assignments. It changes no name but those it assigns to. Both
   hold of runs that fail as well. -/
namespace ExactLinear

namespace Statement

@[simp] theorem reads_assign (name : String) (e : Expr) (line : Nat) :
    (assign name e line).reads = e.reads := List.append_nil _

@[simp] theorem reads_evaluate (e : Expr) (line : Nat) :
    (evaluate e line).reads = e.reads := List.append_nil _

@[simp] theorem reads_block (body : List Statement) (line : Nat) :
    (block body line).reads = body.flatMap reads := by
  rw [reads, steps_block, List.flatMap_assoc]
  rfl

end Statement

namespace Environment

/-- That names have the same values in two environments, or none in either. -/
def AgreeOn (names : List String) (env env' : Environment) : Prop :=
  ∀ name ∈ names, env.get? name = env'.get? name

variable {env env' : Environment}

/-! What a run depends on. -/

theorem evaluate_congr (e : Expr) (h : AgreeOn e.reads env env') :
    env.evaluate e = env'.evaluate e := by
  induction e using Expr.induction with
  | literal value line => rfl
  | var name line => rw [evaluate, evaluate, h name (List.mem_singleton_self name)]
  | neg operand line ih => rw [evaluate, evaluate, ih h]
  | binary op left right line ihl ihr =>
    obtain ⟨hl, hr⟩ := List.forall_mem_append.mp h
    rw [evaluate, evaluate, ihl hl, ihr hr]
  | call function arguments line ih =>
    rw [Expr.reads_call] at h
    have harguments : ∀ e ∈ arguments, env.evaluate e = env'.evaluate e :=
      fun e he => ih e he fun name hname => h name (List.mem_flatMap_of_mem he hname)
    rw [evaluate, evaluate, evaluateAll_eq, evaluateAll_eq, mapM_congr harguments]
  | rows entries line ih =>
    rw [Expr.reads_rows] at h
    have hentry : ∀ row ∈ entries, ∀ e ∈ row, env.entry e = env'.entry e := by
      intro row hrow e he
      have hreads : AgreeOn e.reads env env' := fun name hname =>
        h name (List.mem_flatMap_of_mem hrow (List.mem_flatMap_of_mem he hname))
      rw [entry, entry, ih row hrow e he hreads]
    rw [evaluate, evaluate, evaluateRows_eq, evaluateRows_eq,
      mapM_congr fun row hrow => mapM_congr (hentry row hrow)]

/-! What a run changes. -/

theorem executeAll_env_of {ss : List Statement}
    (hss : ∀ s ∈ ss, ∀ env : Environment,
      (env.execute s).1 = env.setAll (env.assignments s))
    (env : Environment) (last : Option Value) :
    (env.executeAll last ss).1 = env.setAll (env.assignmentsOfAll ss) := by
  induction ss generalizing env last with
  | nil => rfl
  | cons s ss ih =>
    obtain ⟨hs, hss⟩ := List.forall_mem_cons.mp hss
    rw [executeAll, assignmentsOfAll, setAll_append, ← hs env]
    rcases env.execute s with ⟨after, e | value⟩
    · rfl
    · exact ih hss after (value.or last)

/-- A run leaves the environment with its assignments made. -/
theorem execute_env (s : Statement) (env : Environment) :
    (env.execute s).1 = env.setAll (env.assignments s) := by
  induction s using Statement.induction generalizing env with
  | assign name e line =>
    rw [execute, assignments]
    cases env.evaluate e <;> rfl
  | evaluate e line => rfl
  | block body line ih => exact executeAll_env_of ih env none

theorem mem_targets_of_assignmentsOfAll {ss : List Statement}
    (hss : ∀ s ∈ ss, ∀ env : Environment, ∀ w ∈ env.assignments s, w.1 ∈ Step.targets s.steps)
    (env : Environment) :
    ∀ w ∈ env.assignmentsOfAll ss, w.1 ∈ ss.flatMap fun s => Step.targets s.steps := by
  induction ss generalizing env with
  | nil => exact List.forall_mem_nil _
  | cons s ss ih =>
    obtain ⟨hs, hss⟩ := List.forall_mem_cons.mp hss
    rw [assignmentsOfAll, List.flatMap_cons, List.forall_mem_append]
    refine ⟨fun w hw => List.mem_append_left _ (hs env w hw), ?_⟩
    rcases env.execute s with ⟨after, e | value⟩
    · exact List.forall_mem_nil _
    · exact fun w hw => List.mem_append_right _ (ih hss after w hw)

theorem mem_targets_of_assignments (s : Statement) (env : Environment) :
    ∀ w ∈ env.assignments s, w.1 ∈ Step.targets s.steps := by
  induction s using Statement.induction generalizing env with
  | assign name e line =>
    rw [assignments]
    cases env.evaluate e with
    | ok value => exact List.forall_mem_singleton.mpr (List.mem_singleton_self name)
    | error error => exact List.forall_mem_nil _
  | evaluate e line => exact List.forall_mem_nil _
  | block body line ih =>
    rw [Statement.steps_block, Step.targets_flatMap]
    exact mem_targets_of_assignmentsOfAll ih env

/-! Two runs. -/

/-- That a statement comes to the same in two environments. -/
def RunsAlike (env env' : Environment) (s : Statement) : Prop :=
  (env.execute s).2 = (env'.execute s).2 ∧ env.assignments s = env'.assignments s

/-- Afterwards the environments agree where they agreed before. -/
theorem RunsAlike.agreeOn {s : Statement} {names : List String} (h : RunsAlike env env' s)
    (hnames : AgreeOn names env env') : AgreeOn names (env.execute s).1 (env'.execute s).1 := by
  intro name hname
  rw [execute_env, execute_env, h.2]
  exact get?_setAll_congr (hnames name hname) _

theorem runsAlike_body {ss : List Statement}
    (hss : ∀ s ∈ ss, ∀ env env' : Environment, AgreeOn s.reads env env' → RunsAlike env env' s)
    (h : AgreeOn (ss.flatMap Statement.reads) env env') (last : Option Value) :
    (env.executeAll last ss).2 = (env'.executeAll last ss).2 ∧
      env.assignmentsOfAll ss = env'.assignmentsOfAll ss := by
  induction ss generalizing env env' last with
  | nil => exact ⟨rfl, rfl⟩
  | cons s ss ih =>
    obtain ⟨hs, hss⟩ := List.forall_mem_cons.mp hss
    obtain ⟨hfirst, hlater⟩ := List.forall_mem_append.mp h
    have halike := hs env env' hfirst
    have hafter := halike.agreeOn hlater
    obtain ⟨hresult, hwritten⟩ := halike
    simp only [executeAll, assignmentsOfAll, hwritten]
    -- Both runs of the first statement end in one way.
    generalize env.execute s = first at hresult hafter
    generalize env'.execute s = first' at hresult hafter
    obtain ⟨after, result⟩ := first
    obtain ⟨after', result'⟩ := first'
    obtain rfl : result = result' := hresult
    cases result with
    | error e => exact ⟨rfl, rfl⟩
    | ok value =>
      obtain ⟨hrest, hrestWritten⟩ := ih hss hafter (value.or last)
      exact ⟨hrest, congrArg _ hrestWritten⟩

theorem runsAlike (s : Statement) (h : AgreeOn s.reads env env') : RunsAlike env env' s := by
  induction s using Statement.induction generalizing env env' with
  | assign name e line =>
    rw [Statement.reads_assign] at h
    rw [RunsAlike, execute, execute, assignments, assignments, evaluate_congr e h]
    cases env'.evaluate e <;> exact ⟨rfl, rfl⟩
  | evaluate e line =>
    rw [Statement.reads_evaluate] at h
    rw [RunsAlike, execute, execute, evaluate_congr e h]
    exact ⟨rfl, rfl⟩
  | block body line ih =>
    rw [Statement.reads_block] at h
    exact runsAlike_body (fun s hs _ _ => ih s hs) h none

/-- In two environments with the same values for the names it reads, a statement has the same value
or the same error, and binds the same names to the same values in the same order. Whatever comes of
it, a name that none of its assignments has as target is bound as before. -/
theorem execute_frame (s : Statement) (h : ∀ name ∈ s.reads, env.get? name = env'.get? name) :
    (env.execute s).2 = (env'.execute s).2 ∧
    (∃ written, env.assignments s = written ∧ env'.assignments s = written ∧
      (env.execute s).1 = env.setAll written ∧ (env'.execute s).1 = env'.setAll written) ∧
    ∀ start : Environment, ∀ name ∉ Step.targets s.steps,
      (start.execute s).1.get? name = start.get? name := by
  obtain ⟨hresult, hwritten⟩ := runsAlike s h
  refine ⟨hresult, ⟨env'.assignments s, hwritten, rfl, ?_, execute_env s env'⟩, ?_⟩
  · rw [execute_env, hwritten]
  · intro start name hname
    rw [execute_env]
    refine get?_setAll_of_not_mem (fun w hw hne => ?_) start
    exact hname (hne ▸ mem_targets_of_assignments s start w hw)

/-- A block that binds `x` and fails in a block of its own, where `x` had another value or none. -/
theorem execute_frame_failure :
    (∀ name ∈ (Statement.block [.assign "x" (.var "a" 1) 1,
          .block [.assign "y" (.binary .div (.var "a" 2) (.literal (.scalar 0) 2) 2) 2] 2] 1).reads,
      (empty.set "a" (.scalar 3)).get? name =
        ((empty.set "x" (.boolean true)).set "a" (.scalar 3)).get? name) ∧
    ((empty.set "a" (.scalar 3)).execute (.block [.assign "x" (.var "a" 1) 1,
          .block [.assign "y" (.binary .div (.var "a" 2) (.literal (.scalar 0) 2) 2) 2] 2] 1)).2 =
      (((empty.set "x" (.boolean true)).set "a" (.scalar 3)).execute
        (.block [.assign "x" (.var "a" 1) 1,
          .block [.assign "y" (.binary .div (.var "a" 2) (.literal (.scalar 0) 2) 2) 2] 2] 1)).2 := by
  have h : ∀ name ∈ (Statement.block [.assign "x" (.var "a" 1) 1,
        .block [.assign "y" (.binary .div (.var "a" 2) (.literal (.scalar 0) 2) 2) 2] 2] 1).reads,
      (empty.set "a" (.scalar 3)).get? name =
        ((empty.set "x" (.boolean true)).set "a" (.scalar 3)).get? name := by
    decide
  exact ⟨h, (execute_frame _ h).1⟩

end Environment

end ExactLinear
