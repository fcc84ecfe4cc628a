import ExactLinear.Proofs.ExitLine
import ExactLinear.Proofs.Lines
import ExactLinear.Proofs.Reading.Extension
import ExactLinear.Proofs.Session
import Mathlib.Data.List.Basic

/- A text that runs, given to the dialogue line by line. The dialogue cuts the text
   wherever the lines so far are a program; the parts are run one after the other,
   and leave behind what the whole text does. -/
namespace ExactLinear

open Grammar

/-- Lines, and the symbols that they spell with a line break after each of them. -/
inductive SpelledLines : List (List Char) → List Symbol → Prop
  | nil : SpelledLines [] []
  | cons {line : List Char} {lines : List (List Char)} {v w : List Symbol} :
      Spells line v → SpelledLines lines w →
      SpelledLines (line :: lines) (v ++ .newLine :: w)

namespace Lines

/-- The lines of a text spell what the text does, up to a line break at the end. -/
theorem exists_spelledLines {cs : List Char} {w : List Symbol} (h : Spells cs w) :
    ∃ w', SpelledLines (split '\n' '\r' cs) w' ∧ (w' = w ∨ w' = w ++ [.newLine]) := by
  -- Behind the first line break the text is shorter.
  induction hsize : cs.length using Nat.strongRecOn generalizing cs w with
  | ind size ih =>
    by_cases hbreak : '\n' ∈ cs
    · obtain ⟨front, rest, rfl, hfront⟩ := List.eq_append_cons_of_mem hbreak
      obtain ⟨line, hsplit, hline⟩ := split_lineFeed hfront rest
      obtain ⟨v, v', hv, hv', rfl⟩ := h.of_append_lineBreak
      have hshort : rest.length < size := by
        simp at hsize
        omega
      obtain ⟨w', hw', hor⟩ := ih _ hshort hv' rfl
      have hspells : Spells line v := by
        rcases hline with rfl | rfl
        · exact hv
        · exact hv.of_append_return
      rw [hsplit]
      refine ⟨v ++ .newLine :: w', .cons hspells hw', ?_⟩
      rcases hor with rfl | rfl
      · exact .inl rfl
      · exact .inr (by simp)
    · cases cs with
      | nil =>
        cases h with
        | nil => exact ⟨[], .nil, .inl rfl⟩
        | cons hfirst => cases hfirst
      | cons c cs =>
        rw [split_of_not_mem hbreak]
        exact ⟨w ++ [.newLine], .cons h .nil, .inr rfl⟩

end Lines

namespace Dialogue

/-- The text kept by a state spells `v`, before whatever comes next, and is no program yet. -/
structure Keeps (s : State) (v : List Symbol) : Prop where
  spells : ∀ cs w, Spells cs w → Spells (s.pending.toList ++ cs) (v ++ w)
  eq_nil : s.pending = "" → v = []
  unfinished : s.pending ≠ "" → ∀ p, ¬Program v p

theorem keeps_empty (env : Environment) : Keeps ⟨env, ""⟩ [] where
  spells _ _ h := h
  eq_nil _ := rfl
  unfinished h := absurd rfl h

/-- What is written shows a value last, or nothing at all. -/
def Shows (written : String) : Option Value → Prop
  | none => written = ""
  | some value => ∃ before, written = before ++ (value.text ++ "\n")

theorem Shows.append {written later : String} {first second : Option Value}
    (h : Shows written first) (h' : Shows later second) :
    Shows (written ++ later) (second.or first) := by
  cases second with
  | none =>
    obtain rfl : later = "" := h'
    simpa using h
  | some value =>
    obtain ⟨before, rfl⟩ := h'
    exact ⟨written ++ before, (String.append_assoc ..).symm⟩

/-- A dialogue that could read everything and ended as a run does. -/
structure Ran (t : Transcript) (after : Environment) (value : Option Value) : Prop where
  readable : t.readable = true
  env : t.env = after
  shows : Shows t.output value

theorem output_after (piece : String) (t : Transcript) :
    (t.after piece).output = piece ++ t.output := by
  simp [Transcript.output, Transcript.after, String.join_cons]

section
variable {s : State} {line : List Char} {u v w : List Symbol} {p : List Statement}

/-- A line is added to the text that is kept. -/
theorem Keeps.append_line (hs : Keeps s u) (hline : Spells line v) (cs : List Char)
    (w : List Symbol) (hcs : Spells cs w) :
    Spells ((s.pending ++ String.ofList line ++ "\n").toList ++ cs)
      (u ++ v ++ .newLine :: w) := by
  have h := hs.spells _ _ (hline.append_lineBreak hcs)
  simpa using h

/-- No line of a program ends the dialogue. -/
theorem isExit_eq_false (hs : Keeps s u) (hline : Spells line v) (hp : Program (u ++ v ++ w) p) :
    isExit s (String.ofList line) = false := by
  cases hexit : isExit s (String.ofList line) with
  | false => rfl
  | true =>
    have hpending : s.pending = "" := by simpa using (Bool.and_eq_true_iff.mp hexit).1
    rw [hs.eq_nil hpending] at hp
    exact absurd hp (not_program_of_isExit hexit hline)

theorem step_of_program (hs : Keeps s u) (hline : Spells line v)
    (hp : Program (u ++ v ++ [.newLine]) p) {after : Environment} {value : Option Value}
    (h : s.env.executeAll none p = (after, .ok value)) :
    ∃ written, step s (String.ofList line) = (written, ⟨after, ""⟩) ∧ Shows written value := by
  have hspells : Spells (s.pending ++ String.ofList line ++ "\n").toList
      (u ++ v ++ [.newLine]) := by
    simpa using hs.append_line hline [] [] .nil
  have hrun := Environment.run_eq_ok_iff.mpr ⟨_, p, hspells, hp, h⟩
  simp only [step, hrun]
  cases value with
  | none => exact ⟨"", rfl, rfl⟩
  | some x => exact ⟨x.text ++ "\n", rfl, "", by simp⟩

/-- Lines that are no program yet are kept if more symbols make them one. -/
theorem step_of_unfinished (hs : Keeps s u) (hline : Spells line v)
    (hnone : ∀ q, ¬Program (u ++ v ++ [.newLine]) q) (hp : Program (u ++ v ++ .newLine :: w) p) :
    ∃ text, step s (String.ofList line) = ("", ⟨s.env, text⟩) ∧
      Keeps ⟨s.env, text⟩ (u ++ v ++ [.newLine]) := by
  have hkept := hs.append_line hline
  refine ⟨s.pending ++ String.ofList line ++ "\n", ?_, ?_⟩
  · have hspells : Spells (s.pending ++ String.ofList line ++ "\n").toList
        (u ++ v ++ [.newLine]) := by
      simpa using hkept [] [] .nil
    obtain ⟨ts, hts, hsymbols⟩ := exists_tokensFrom hspells 1
    obtain ⟨more, rfl⟩ := Reading.exists_tokens w
    have hwhole : Program ((ts ++ more).map Token.symbol) p := by
      simpa [hsymbols] using hp
    obtain ⟨q, hq, -⟩ := exists_program_iff.mpr hwhole
    have hfails : ∀ q, program ts ≠ .ok q :=
      fun q h => hnone _ (hsymbols ▸ exists_program_iff.mp ⟨q, h, rfl⟩)
    obtain ⟨e, herror, hend⟩ := program_incomplete_iff.mpr ⟨hfails, more, q, hq⟩
    have hparse : parse (s.pending ++ String.ofList line ++ "\n") = .error e := by
      rw [parse, tokenize, hts]
      exact herror
    simp [step, Environment.run, hparse, SourceError.isIncomplete, ParseError.isIncomplete, hend]
  · exact {
      spells := fun cs w' hcs => by simpa using hkept cs w' hcs
      eq_nil := fun h => by simp at h
      unfinished := fun _ => hnone }

/-- From a state on, lines that complete what is kept to a program run as that does. -/
theorem converse_lines {lines : List (List Char)} (hlines : SpelledLines lines w) (hs : Keeps s u)
    (hp : Program (u ++ w) p) {after : Environment} {value : Option Value}
    (h : s.env.executeAll none p = (after, .ok value)) :
    Ran (converse true s (lines.map fun line => some (String.ofList line))) after value := by
  induction hlines generalizing s u p value with
  | nil =>
    rw [List.append_nil] at hp
    have hpending : s.pending = "" := by
      by_cases hpending : s.pending = ""
      · exact hpending
      · exact absurd hp (hs.unfinished hpending p)
    rw [hs.eq_nil hpending] at hp
    obtain rfl := derived_unique hp (.nil separators_nil)
    cases h
    exact ⟨rfl, rfl, rfl⟩
  | @cons line lines v w hline _ ih =>
    rw [← List.append_assoc] at hp
    have hexit := isExit_eq_false hs hline hp
    rw [List.map_cons, converse, hexit]
    by_cases hq : ∃ q, Program (u ++ v ++ [.newLine]) q
    · -- The lines so far are a program: they run, and the next ones from where they end.
      obtain ⟨q, hq⟩ := hq
      obtain ⟨p', hp', rfl⟩ := Program.of_append_lineBreak hq hp
      obtain ⟨middle, first, second, hfirst, hsecond, rfl⟩ :=
        Environment.executeAll_append_eq_ok h
      obtain ⟨written, hstep, hshows⟩ := step_of_program hs hline hq hfirst
      have hrest := ih (keeps_empty middle) hp' hsecond
      simp only [hstep]
      refine ⟨hrest.readable, hrest.env, ?_⟩
      simpa [output_after] using hshows.append hrest.shows
    · -- They are none yet, and the whole is one, so they are kept.
      obtain ⟨text, hstep, hkeeps⟩ := step_of_unfinished hs hline (not_exists.mp hq) hp
      have hrest := ih hkeeps (by simpa using hp) h
      simp only [hstep]
      refine ⟨hrest.readable, hrest.env, ?_⟩
      simpa [output_after] using hrest.shows

end

/-- A text that runs, given to the dialogue line by line, leaves the same environment, and what is
written ends with the value of the run. -/
theorem run_quiet {env after : Environment} {text : String} {value : Option Value}
    (h : env.run text = (after, .ok value)) :
    (run true env (Lines.encode text)).readable = true ∧
    (run true env (Lines.encode text)).env = after ∧
    (value = none → (run true env (Lines.encode text)).output = "") ∧
    ∀ v, value = some v →
      ∃ before, (run true env (Lines.encode text)).output = before ++ (v.text ++ "\n") := by
  obtain ⟨w, p, hw, hp, hexecute⟩ := Environment.run_eq_ok_iff.mp h
  obtain ⟨w', hlines, hor⟩ := Lines.exists_spelledLines hw
  have hp' : Program w' p := by
    rcases hor with rfl | rfl
    · exact hp
    · have hbreak : Program [.newLine] [] := .nil (List.forall_mem_singleton.mpr rfl)
      simpa using Statements.append hp (ended_cons.mpr rfl) hbreak
  have hran := converse_lines hlines (keeps_empty env) hp' hexecute
  have hrun : run true env (Lines.encode text) =
      (converse true (start env)
        ((Lines.split '\n' '\r' text.toList).map fun line => some (String.ofList line))).after "" := by
    rw [run, Lines.ofBytes_encode, Lines.ofText, List.map_map]
    rfl
  rw [hrun]
  refine ⟨hran.readable, hran.env, ?_, ?_⟩
  · rintro rfl
    rw [output_after, String.empty_append]
    exact hran.shows
  · rintro v rfl
    rw [output_after, String.empty_append]
    exact hran.shows

/-- The first line is kept until the second completes it. -/
theorem run_quiet_unfinished_line :
    Environment.empty.run "x = (1 +\n2)\nx" =
      (⟨[("x", .scalar 3)]⟩, .ok (some (.scalar 3))) ∧
    (run true .empty (Lines.encode "x = (1 +\n2)\nx")).env = ⟨[("x", .scalar 3)]⟩ := by
  have htokens : tokenize "x = (1 +\n2)\nx" =
      .ok [⟨.identifier "x", 1⟩, ⟨.equals, 1⟩, ⟨.openParen, 1⟩, ⟨.number 1, 1⟩, ⟨.plus, 1⟩,
        ⟨.newLine, 1⟩, ⟨.number 2, 2⟩, ⟨.closeParen, 2⟩, ⟨.newLine, 2⟩, ⟨.identifier "x", 3⟩] := by
    decide +kernel
  have h : Environment.empty.run "x = (1 +\n2)\nx" =
      (⟨[("x", .scalar 3)]⟩, .ok (some (.scalar 3))) := by
    rw [Environment.run, parse, htokens]
    cbv
  exact ⟨h, (run_quiet h).2.1⟩

end Dialogue

end ExactLinear
