import ExactLinear.Proofs.Evaluation.Line
import ExactLinear.Proofs.Reading.Program
import ExactLinear.Session

/- Statements run one after the other, and texts run. A run of two lists of statements
   is the run of the second from where that of the first ended; the value so far is
   kept until a statement has one. A text is run as the program that it spells. -/
namespace ExactLinear

namespace Environment

theorem executeAll_append (env : Environment) (last : Option Value) (ss ss' : List Statement) :
    env.executeAll last (ss ++ ss') =
      match env.executeAll last ss with
      | (after, .ok value) => after.executeAll value ss'
      | (after, .error e) => (after, .error e) := by
  induction ss generalizing env last with
  | nil => rfl
  | cons s ss ih =>
    simp only [List.cons_append, executeAll]
    rcases env.execute s with ⟨after, e | value⟩
    · rfl
    · exact ih after (value.or last)

/-- A value from before the run is its value only if no statement has one. -/
theorem executeAll_eq (env : Environment) (last : Option Value) (ss : List Statement) :
    env.executeAll last ss =
      ((env.executeAll none ss).1, (env.executeAll none ss).2.map fun value => value.or last) := by
  induction ss generalizing env last with
  | nil => simp [executeAll, Except.map]
  | cons s ss ih =>
    simp only [executeAll]
    rcases env.execute s with ⟨after, e | value⟩
    · rfl
    · dsimp only
      rw [ih after (value.or last), ih after (value.or none)]
      cases (after.executeAll none ss).2 <;> simp [Except.map, Option.or_assoc]

/-- A run of two lists that succeeds, taken apart. -/
theorem executeAll_append_eq_ok {env after : Environment} {value : Option Value}
    {ss ss' : List Statement} (h : env.executeAll none (ss ++ ss') = (after, .ok value)) :
    ∃ middle first second, env.executeAll none ss = (middle, .ok first) ∧
      middle.executeAll none ss' = (after, .ok second) ∧ value = second.or first := by
  rw [executeAll_append] at h
  rcases hss : env.executeAll none ss with ⟨middle, e | first⟩
  · simp [hss] at h
  · simp only [hss] at h
    rw [executeAll_eq] at h
    rcases hss' : middle.executeAll none ss' with ⟨after', e | second⟩
    · simp [hss', Except.map] at h
    · rw [hss'] at h
      cases h
      exact ⟨middle, first, second, rfl, hss', rfl⟩

end Environment

open Grammar

/-- A text that spells a program runs as the program does, and no other text runs. -/
theorem Environment.run_eq_ok_iff {env after : Environment} {text : String}
    {value : Option Value} :
    env.run text = (after, .ok value) ↔
      ∃ w p, Spells text.toList w ∧ Program w p ∧ env.executeAll none p = (after, .ok value) := by
  refine ⟨?_, ?_⟩
  · intro h
    rw [run] at h
    cases hq : parse text with
    | error e =>
      rw [hq] at h
      cases h
    | ok q =>
      obtain ⟨w, hw, hp⟩ := exists_parse_iff.mp ⟨q, hq, rfl⟩
      refine ⟨w, _, hw, hp, executeAll_unlined_eq_ok.mpr ?_⟩
      rcases hrun : env.executeAll none q with ⟨_, _ | _⟩ <;> simp_all
  · rintro ⟨w, p, hw, hp, h⟩
    obtain ⟨q, hq, rfl⟩ := exists_parse_iff.mpr ⟨w, hw, hp⟩
    rw [executeAll_unlined_eq_ok] at h
    simp only [run, hq, h]

end ExactLinear
