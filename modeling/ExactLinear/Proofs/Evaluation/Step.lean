import ExactLinear.Evaluation.Step
import ExactLinear.Session

/- Programs step by step. Blocks only group statements: a program runs as its steps
   do one after the other, up to the first that fails. -/
namespace ExactLinear.Environment

theorem Performs.append {env middle after : Environment} {steps steps' : List Step}
    {values values' : List Value} (h : Performs env steps values middle)
    (h' : Performs middle steps' values' after) :
    Performs env (steps ++ steps') (values ++ values') after := by
  induction h with
  | nil => exact h'
  | cons hstep _ ih =>
    rw [List.append_assoc]
    exact .cons hstep (ih h')

theorem Performs.single {env after : Environment} {step : Step} {value : Option Value}
    (h : env.perform step = .ok (after, value)) : Performs env [step] value.toList after := by
  simpa using Performs.cons h .nil

/-- That an outcome is that of performing steps up to the first that fails. The value `last` from
before them stays if no step has one. -/
inductive Ends (env : Environment) (steps : List Step) (last : Option Value) :
    Outcome RuntimeError → Prop
  | ok {values : List Value} {after : Environment} :
      Performs env steps values after → Ends env steps last (after, .ok (values.getLast?.or last))
  | error {done later : List Step} {step : Step} {values : List Value} {after : Environment}
      {error : RuntimeError} :
      steps = done ++ step :: later → Performs env done values after →
      after.perform step = .error error → Ends env steps last (after, .error error)

theorem Ends.prepend {env middle : Environment} {steps steps' : List Step} {values : List Value}
    {last : Option Value} {outcome : Outcome RuntimeError} (h : Performs env steps values middle)
    (h' : Ends middle steps' (values.getLast?.or last) outcome) :
    Ends env (steps ++ steps') last outcome := by
  cases h' with
  | ok hdone =>
    rw [← Option.or_assoc, ← List.getLast?_append]
    exact .ok (h.append hdone)
  | @error done later step _ _ _ heq hdone hfails =>
    have heq' : steps ++ steps' = (steps ++ done) ++ step :: later := by
      rw [heq, List.append_assoc]
    exact .error heq' (h.append hdone) hfails

theorem ends_executeAll_of {ss : List Statement}
    (hss : ∀ s ∈ ss, ∀ env : Environment, Ends env s.steps none (env.execute s))
    (env : Environment) (last : Option Value) :
    Ends env (ss.flatMap Statement.steps) last (env.executeAll last ss) := by
  induction ss generalizing env last with
  | nil => exact .ok .nil
  | cons s ss ih =>
    obtain ⟨hs, hss⟩ := List.forall_mem_cons.mp hss
    have hfirst := hs env
    rw [List.flatMap_cons, executeAll]
    generalize env.execute s = outcome at hfirst
    cases hfirst with
    | @ok values after hdone =>
      rw [Option.or_none]
      exact .prepend hdone (ih hss after (values.getLast?.or last))
    | @error done later step _ _ _ heq hdone hfails =>
      have heq' : s.steps ++ ss.flatMap Statement.steps =
          done ++ step :: (later ++ ss.flatMap Statement.steps) := by
        rw [heq, List.append_assoc, List.cons_append]
      exact .error heq' hdone hfails

theorem ends_execute (s : Statement) (env : Environment) :
    Ends env s.steps none (env.execute s) := by
  induction s using Statement.induction generalizing env with
  | assign name e line =>
    rw [Statement.steps_assign, execute]
    cases he : env.evaluate e with
    | ok value =>
      have hdone : env.perform (.assign name e) = .ok (env.set name value, none) := by
        rw [perform, he]
        rfl
      exact .ok (.single hdone)
    | error error =>
      have hfails : env.perform (.assign name e) = .error error := by
        rw [perform, he]
        rfl
      exact .error (List.nil_append _).symm .nil hfails
  | evaluate e line =>
    rw [Statement.steps_evaluate, execute]
    cases he : env.evaluate e with
    | ok value =>
      have hdone : env.perform (.evaluate e) = .ok (env, some value) := by
        rw [perform, he]
        rfl
      exact .ok (.single hdone)
    | error error =>
      have hfails : env.perform (.evaluate e) = .error error := by
        rw [perform, he]
        rfl
      exact .error (List.nil_append _).symm .nil hfails
  | block body line ih =>
    rw [Statement.steps_block, execute]
    exact ends_executeAll_of ih env none

theorem env_run_of_parse {text : String} {p : List Statement} (h : parse text = .ok p)
    (env : Environment) : (env.run text).1 = (env.executeAll none p).1 := by
  simp only [run, h]
  rcases env.executeAll none p with ⟨after, e | value⟩
  · rfl
  · rfl

/-- A text that is no program changes nothing. A program leaves what its steps leave, performed one
after the other: all of them, with the value of the last expression among them, or those in front
of the first that fails, with its error. -/
theorem run_steps (env : Environment) (text : String) :
    match parse text with
    | .error e => env.run text = (env, .error (.parse e))
    | .ok program =>
      (∃ values after, Performs env (program.flatMap Statement.steps) values after ∧
        env.run text = (after, .ok values.getLast?)) ∨
      ∃ done step later values after error,
        program.flatMap Statement.steps = done ++ step :: later ∧
        Performs env done values after ∧ after.perform step = .error error ∧
        env.run text = (after, .error (.runtime error)) := by
  cases hparse : parse text with
  | error e =>
    simp only [run, hparse]
  | ok program =>
    have hends : Ends env (program.flatMap Statement.steps) none (env.executeAll none program) :=
      ends_executeAll_of (fun s _ env => ends_execute s env) env none
    simp only [run, hparse]
    generalize env.executeAll none program = outcome at hends
    cases hends with
    | @ok values after hdone =>
      rw [Option.or_none]
      exact .inl ⟨values, after, hdone, rfl⟩
    | @error done later step values after error heq hdone hfails =>
      exact .inr ⟨done, step, later, values, after, error, heq, hdone, hfails, rfl⟩

end ExactLinear.Environment
