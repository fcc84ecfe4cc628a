import ExactLinear.Dialogue

/- A dialogue by chunks. A chunk is the shortest run of lines whose text does not end
   within a construct. It is run once, as one text, and what comes of it is the
   answer. The line that ends the dialogue does so only where a chunk would begin;
   lines at the end of the input that make no chunk are dropped. -/
namespace ExactLinear.Dialogue

/-- Lines as one text, each with a line feed after it. -/
def textOf (lines : List String) : String := String.join (lines.map (· ++ "\n"))

@[simp] theorem textOf_nil : textOf [] = "" := rfl

@[simp] theorem textOf_concat (lines : List String) (line : String) :
    textOf (lines ++ [line]) = textOf lines ++ line ++ "\n" := by
  simp [textOf, String.append_assoc]

/-- Whether a text ends within a construct. -/
def isUnfinished (text : String) : Bool :=
  match parse text with
  | .ok _ => false
  | .error e => e.isIncomplete

/-- Whether a line ends the dialogue if no chunk has begun. -/
def isExitLine (line : String) : Bool := Blank.trim line.toList == exitCommand.toList

/-- The number of lines in the first chunk, if there is one. -/
def chunkLength? (lines : List String) : Option Nat :=
  (List.range' 1 lines.length).find? fun n => !isUnfinished (textOf (lines.take n))

section
variable {lines : List String} {n : Nat}

theorem chunkLength?_eq_some_iff :
    chunkLength? lines = some n ↔
      0 < n ∧ n ≤ lines.length ∧ isUnfinished (textOf (lines.take n)) = false ∧
        ∀ m, 0 < m → m < n → isUnfinished (textOf (lines.take m)) = true := by
  simp only [chunkLength?, List.find?_range'_eq_some, List.mem_range'_1, Bool.not_eq_true',
    Bool.not_not]
  constructor
  · rintro ⟨hn, ⟨hpos, hlt⟩, hbefore⟩
    exact ⟨hpos, by omega, hn, hbefore⟩
  · rintro ⟨hpos, hle, hn, hbefore⟩
    exact ⟨hn, ⟨hpos, by omega⟩, hbefore⟩

theorem chunkLength?_eq_none_iff :
    chunkLength? lines = none ↔
      ∀ m, 0 < m → m ≤ lines.length → isUnfinished (textOf (lines.take m)) = true := by
  simp only [chunkLength?, List.find?_range'_eq_none, Bool.not_not]
  constructor
  · intro h m hpos hle
    exact h m hpos (by omega)
  · intro h m hpos hlt
    exact h m hpos (by omega)

end

/-- A chunk, and what running it comes to. -/
structure Exchange where
  lines : List String
  result : Except SourceError (Option Value)

def Exchange.answer (x : Exchange) : String :=
  match x.result with
  | .ok (some value) => value.text ++ "\n"
  | .ok none => ""
  | .error e => e.message ++ "\n"

/-- That chunks are run one after the other, each of them once and where the one before has ended. -/
inductive Proceeds : Environment → List Exchange → Environment → Prop
  | nil {env : Environment} : Proceeds env [] env
  | cons {env middle after : Environment} {x : Exchange} {rest : List Exchange} :
      env.run (textOf x.lines) = (middle, x.result) → Proceeds middle rest after →
      Proceeds env (x :: rest) after

/-- A dialogue that has ended, by chunks. -/
structure Conversation where
  exchanges : List Exchange
  /-- The lines read after the last chunk, which make none. -/
  dropped : List String
  env : Environment

namespace Conversation

/-- The same dialogue with a chunk before it. -/
def after (x : Exchange) (c : Conversation) : Conversation :=
  { c with exchanges := x :: c.exchanges }

@[simp] theorem exchanges_after (x : Exchange) (c : Conversation) :
    (c.after x).exchanges = x :: c.exchanges := rfl

@[simp] theorem dropped_after (x : Exchange) (c : Conversation) :
    (c.after x).dropped = c.dropped := rfl

@[simp] theorem env_after (x : Exchange) (c : Conversation) : (c.after x).env = c.env := rfl

end Conversation

/-- The dialogue over lines to be read. -/
def inChunks (env : Environment) (lines : List String) : Conversation :=
  if lines.head?.any isExitLine then ⟨[], [], env⟩
  else
    match _ : chunkLength? lines with
    | none => ⟨[], lines, env⟩
    | some n =>
      let (after, result) := env.run (textOf (lines.take n))
      (inChunks after (lines.drop n)).after ⟨lines.take n, result⟩
termination_by lines.length
decreasing_by
  obtain ⟨hpos, hle, -⟩ := chunkLength?_eq_some_iff.mp ‹chunkLength? lines = some n›
  rw [List.length_drop]
  omega

section
variable (env : Environment) {lines : List String} {n : Nat}

theorem inChunks_of_exit (h : lines.head?.any isExitLine = true) :
    inChunks env lines = ⟨[], [], env⟩ := by
  rw [inChunks, if_pos h]

theorem inChunks_of_none (h : lines.head?.any isExitLine = false)
    (hnone : chunkLength? lines = none) : inChunks env lines = ⟨[], lines, env⟩ := by
  rw [inChunks, if_neg (Bool.eq_false_iff.mp h)]
  split
  · rfl
  · next n hsome =>
    rw [hnone] at hsome
    cases hsome

theorem inChunks_of_some (h : lines.head?.any isExitLine = false)
    (hsome : chunkLength? lines = some n) :
    inChunks env lines =
      (inChunks (env.run (textOf (lines.take n))).1 (lines.drop n)).after
        ⟨lines.take n, (env.run (textOf (lines.take n))).2⟩ := by
  rw [inChunks, if_neg (Bool.eq_false_iff.mp h)]
  split
  · next hnone =>
    rw [hsome] at hnone
    cases hnone
  · next k hk =>
    rw [hsome] at hk
    cases hk
    rfl

end

/-- What is written before a number of lines, from the beginning of a chunk on. -/
def prompts (quiet : Bool) : Nat → String
  | 0 => ""
  | n + 1 => if quiet then "" else ">> " ++ String.join (List.replicate n ".. ")

/-- Everything written but the banner. The last line that is asked for ends the dialogue or is not
there. -/
def Conversation.written (quiet : Bool) (c : Conversation) : String :=
  String.join (c.exchanges.map fun x => prompts quiet x.lines.length ++ x.answer) ++
    prompts quiet (c.dropped.length + 1)

def Conversation.output (quiet : Bool) (c : Conversation) : String :=
  (if quiet then "" else banner ++ "\n") ++ c.written quiet

end ExactLinear.Dialogue
