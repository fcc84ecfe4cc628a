import ExactLinear.Dialogue
import ExactLinear.Proofs.Evaluation.Outcome
import ExactLinear.Proofs.Evaluation.Step
import ExactLinear.Proofs.Lines
import ExactLinear.Proofs.Reading.Program
import ExactLinear.Proofs.Spelling
import ExactLinear.Syntax.Writing
import Mathlib.Data.List.Basic
import Mathlib.Data.List.TakeWhile

/- Bound names. Evaluation checks no name: it binds whatever an assignment has as its
   target. That every bound name has the form of identifiers and stands for no function
   is owed to the lexemes and to the grammar, which let no other target into a program.
   Every step of a program keeps it, so it holds after a program that fails as well,
   and after every sequence of runs and dialogues. -/
namespace ExactLinear

/-- That a name may be the target of an assignment. -/
structure Assignable (name : String) : Prop where
  isName : Lexeme.IsName name
  unreserved : name ∉ Builtin.reserved

/-! Targets in texts. -/

theorem Lexeme.isName_of_first? {cs rest : List Char} {l : Lexeme} {name : String}
    (h : first? cs = some (l, rest)) (hl : l.symbol? = some (.identifier name)) : IsName name := by
  cases cs with
  | nil => cases h
  | cons c cs =>
    obtain ⟨hc, rfl⟩ := eq_of_startingWith?_identifier h hl
    exact ⟨c, _, String.toList_ofList, hc, fun a ha => List.mem_takeWhile_imp ha⟩

theorem Spells.isName {cs : List Char} {w : List Symbol} {name : String} (h : Spells cs w)
    (hname : .identifier name ∈ w) : Lexeme.IsName name := by
  induction h with
  | nil => cases hname
  | cons hfirst _ ih =>
    rcases List.mem_append.mp hname with hname | hname
    · exact Lexeme.isName_of_first? hfirst (Option.mem_toList.mp hname)
    · exact ih hname

namespace Grammar
variable {w : List Symbol} {name : String}

/-- What holds of the targets of each statement holds of those of all of them. -/
theorem Statements.of_mem_targets {ss : List ExactLinear.Statement}
    (hss : ∀ s ∈ ss, ∀ {v : List Symbol}, Statement v s → name ∈ Step.targets s.steps →
      .identifier name ∈ v ∧ name ∉ Builtin.reserved)
    (h : Statements Statement w ss) (hname : name ∈ Step.targets (ss.flatMap Statement.steps)) :
    .identifier name ∈ w ∧ name ∉ Builtin.reserved := by
  rw [Step.targets_flatMap] at hname
  obtain ⟨s, hs, hname⟩ := List.mem_flatMap.mp hname
  obtain ⟨v, hv, hstatement⟩ := h.exists_of_mem hs
  obtain ⟨hmem, hunreserved⟩ := hss s hs hstatement hname
  exact ⟨hv.subset hmem, hunreserved⟩

/-- What a statement assigns to, however deep in blocks, is an identifier of it and not reserved. -/
theorem Statement.of_mem_targets {s : ExactLinear.Statement} (h : Statement w s)
    (hname : name ∈ Step.targets s.steps) :
    .identifier name ∈ w ∧ name ∉ Builtin.reserved := by
  induction s using ExactLinear.Statement.induction generalizing w with
  | assign x e line =>
    cases h with
    | assign hx he =>
      cases List.mem_singleton.mp hname
      exact ⟨List.mem_cons_self, hx⟩
  | evaluate e line => cases hname
  | block body line ih =>
    cases h with
    | @block v _ hbody =>
      rw [Statement.steps_block] at hname
      obtain ⟨hmem, hunreserved⟩ := Statements.of_mem_targets (fun s hs _ => ih s hs) hbody hname
      exact ⟨List.mem_cons_of_mem _ (List.mem_append_left _ hmem), hunreserved⟩

theorem Program.of_mem_targets {p : List ExactLinear.Statement} (h : Program w p)
    (hname : name ∈ Step.targets (p.flatMap Statement.steps)) :
    .identifier name ∈ w ∧ name ∉ Builtin.reserved :=
  Statements.of_mem_targets (fun _ _ _ hs => hs.of_mem_targets) h hname

end Grammar

theorem Statement.targets_mapLine (f : Nat → Nat) (s : Statement) :
    Step.targets (s.mapLine f).steps = Step.targets s.steps := by
  induction s using Statement.induction with
  | assign name e line => rfl
  | evaluate e line => rfl
  | block body line ih =>
    simp only [mapLine_block, steps_block, Step.targets_flatMap, List.flatMap_map]
    exact List.flatMap_congr ih

/-- Reading lets only such targets into a program. -/
theorem assignable_of_parse {text : String} {p : List Statement} (h : parse text = .ok p)
    {name : String} (hname : name ∈ Step.targets (p.flatMap Statement.steps)) :
    Assignable name := by
  obtain ⟨w, hw, hp⟩ := exists_parse_iff.mp ⟨p, h, rfl⟩
  have hname' : name ∈ Step.targets ((p.map Statement.unlined).flatMap Statement.steps) := by
    simpa only [Step.targets_flatMap, List.flatMap_map, Statement.targets_mapLine] using hname
  obtain ⟨hmem, hunreserved⟩ := hp.of_mem_targets hname'
  exact ⟨hw.isName hmem, hunreserved⟩

/-! Environments. -/

namespace Environment

/-- That every name bound may be the target of an assignment. -/
def Named (env : Environment) : Prop := ∀ name, env.contains name = true → Assignable name

theorem named_empty : empty.Named := by
  intro name h
  cases h

variable {env after : Environment} {steps : List Step}

theorem Named.set {name : String} (h : env.Named) (hname : Assignable name) (value : Value) :
    (env.set name value).Named := by
  intro other hother
  rcases contains_set.mp hother with rfl | hother
  · exact hname
  · exact h other hother

theorem Named.perform {step : Step} {value : Option Value} (h : env.Named)
    (hstep : ∀ name, step.target? = some name → Assignable name)
    (hperform : env.perform step = .ok (after, value)) : after.Named := by
  cases step with
  | assign name e =>
    obtain ⟨v, -, heq⟩ := map_eq_ok_iff.mp hperform
    cases heq
    exact h.set (hstep name rfl) v
  | evaluate e =>
    obtain ⟨v, -, heq⟩ := map_eq_ok_iff.mp hperform
    cases heq
    exact h

theorem Named.performs {values : List Value} (h : env.Named)
    (hsteps : ∀ name ∈ Step.targets steps, Assignable name)
    (hperforms : Performs env steps values after) : after.Named := by
  induction hperforms with
  | nil => exact h
  | @cons env middle after step value rest values hstep _ ih =>
    have htargets : ∀ name, step.target? = some name → Assignable name := fun name hname =>
      hsteps name (Step.mem_targets.mpr ⟨step, List.mem_cons_self, hname⟩)
    refine ih (h.perform htargets hstep) ?_
    intro name hname
    obtain ⟨later, hlater, hname⟩ := Step.mem_targets.mp hname
    exact hsteps name (Step.mem_targets.mpr ⟨later, List.mem_cons_of_mem _ hlater, hname⟩)

/-- A step that fails leaves what the steps in front of it have bound. -/
theorem Named.ends {last : Option Value} {outcome : Outcome RuntimeError} (h : env.Named)
    (hsteps : ∀ name ∈ Step.targets steps, Assignable name) (hends : Ends env steps last outcome) :
    outcome.1.Named := by
  cases hends with
  | ok hdone => exact h.performs hsteps hdone
  | @error done later step _ _ _ heq hdone _ =>
    refine h.performs (fun name hname => hsteps name ?_) hdone
    obtain ⟨step', hstep', hname⟩ := Step.mem_targets.mp hname
    rw [heq]
    exact Step.mem_targets.mpr ⟨step', List.mem_append_left _ hstep', hname⟩

theorem Named.run (h : env.Named) (text : String) : (env.run text).1.Named := by
  cases hparse : parse text with
  | error e =>
    simp only [Environment.run, hparse]
    exact h
  | ok p =>
    have hends : Ends env (p.flatMap Statement.steps) none (env.executeAll none p) :=
      ends_executeAll_of (fun s _ env => ends_execute s env) env none
    rw [env_run_of_parse hparse]
    exact h.ends (fun name hname => assignable_of_parse hparse hname) hends

end Environment

/-! Dialogues and sequences of interactions. -/

/-- A line changes the environment as a run of the text up to it does. -/
theorem Dialogue.env_step (s : State) (line : String) :
    (step s line).2.env = (s.env.run (s.pending ++ line ++ "\n")).1 := by
  simp only [step]
  split
  · next h => rw [h]
  · next h => rw [h]
  · next h =>
    rw [h]
    split
    · rfl
    · rfl

section
variable {P : Environment → Prop}

/-- What every run keeps holds after a dialogue, wherever it ends. -/
theorem Dialogue.converse_keeps (hrun : ∀ env, P env → ∀ text, P (env.run text).1) (quiet : Bool)
    (lines : List (Option String)) {s : State} (hs : P s.env) :
    P (converse quiet s lines).env := by
  induction lines generalizing s with
  | nil => exact hs
  | cons line rest ih =>
    cases line with
    | none => exact hs
    | some line =>
      have hstep : P (step s line).2.env := by
        rw [env_step]
        exact hrun s.env hs _
      rw [converse]
      by_cases hexit : isExit s line = true
      · rw [if_pos hexit]
        exact hs
      · rw [if_neg hexit]
        exact ih hstep

theorem Environment.interactAll_keeps (hrun : ∀ env, P env → ∀ text, P (env.run text).1)
    {env : Environment} (h : P env) (xs : List Interaction) : P (env.interactAll xs) := by
  induction xs generalizing env with
  | nil => exact h
  | cons x xs ih =>
    have hx : P (env.interact x) := by
      cases x with
      | run text => exact hrun env h text
      | dialogue quiet input =>
        exact Dialogue.converse_keeps hrun quiet (Lines.ofBytes input) (s := Dialogue.start env) h
    exact ih hx

end

/-- Whatever is run or entered, in whatever order and with whatever failures, each name bound is an
identifier and neither the name of a function nor another name for one. -/
theorem Environment.bound_names (xs : List Interaction) {name : String}
    (h : (empty.interactAll xs).contains name = true) :
    Lexeme.IsName name ∧ Builtin.ofName? name = none ∧
      ∀ f : Builtin, name ≠ f.name ∧ name ∉ f.aliases := by
  have hname : Assignable name :=
    interactAll_keeps (P := Named) (fun _ h text => h.run text) named_empty xs name h
  refine ⟨hname.isName, Builtin.ofName?_eq_none_iff.mpr hname.unreserved, fun f => ?_⟩
  have hf : name ∉ f.names := fun hmem =>
    hname.unreserved (Builtin.mem_reserved_iff.mpr ⟨f, hmem⟩)
  simpa [Builtin.names] using hf

/-- A run that fails in its last statement, and then a dialogue with a matrix over two lines and a
line that is no program. -/
theorem Environment.bound_names_failures :
    (empty.interactAll
      [.run "_a1 = 1/3; { { Ab = _a1 + 1 } }; c = 1/0",
        .dialogue true (Lines.encode "B2 = [[Ab, 2],\n[3, 4]]\ndet = 5\n")]).contains "B2" = true ∧
      Lexeme.IsName "B2" ∧ Builtin.ofName? "B2" = none ∧
      ∀ f : Builtin, "B2" ≠ f.name ∧ "B2" ∉ f.aliases := by
  have h : (empty.interactAll
      [.run "_a1 = 1/3; { { Ab = _a1 + 1 } }; c = 1/0",
        .dialogue true (Lines.encode "B2 = [[Ab, 2],\n[3, 4]]\ndet = 5\n")]).contains "B2" = true := by
    decide +kernel
  exact ⟨h, bound_names _ h⟩

end ExactLinear
