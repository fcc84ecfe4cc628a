import ExactLinear.Session
import ExactLinear.Text

/- The interactive dialogue. Each line is run as soon as it has been read, and its
   value or its error is written. A text that ends within a construct is kept, and
   lines are added to it until it is complete. The line `exit()` ends the
   dialogue, unless a text is being kept. -/
namespace ExactLinear

namespace Dialogue

def exitCommand : String := "exit()"

def banner : String := "ratmat: exact linear algebra. Type exit() to quit."

structure State where
  env : Environment
  /-- The lines of an unfinished text, each with a line feed after it. -/
  pending : String

def start (env : Environment) : State := ⟨env, ""⟩

/-- What is written before a line is read. -/
def prompt (s : State) : String := if s.pending = "" then ">> " else ".. "

def isExit (s : State) (line : String) : Bool :=
  s.pending == "" && Blank.trim line.toList == exitCommand.toList

/-- What a line does: the text written, and the state after it. -/
def step (s : State) (line : String) : String × State :=
  let text := s.pending ++ line ++ "\n"
  match s.env.run text with
  | (after, .ok (some value)) => (value.text ++ "\n", ⟨after, ""⟩)
  | (after, .ok none) => ("", ⟨after, ""⟩)
  | (after, .error e) =>
    if e.isIncomplete then ("", ⟨after, text⟩) else (e.message ++ "\n", ⟨after, ""⟩)

/-- A dialogue that has ended. -/
structure Transcript where
  /-- Everything written, piece by piece. -/
  written : List String
  env : Environment
  /-- Whether every line read was text. -/
  readable : Bool

def Transcript.output (t : Transcript) : String := String.join t.written

/-- The same dialogue with something written before it. -/
def Transcript.after (piece : String) (t : Transcript) : Transcript :=
  { t with written := piece :: t.written }

/-- The dialogue from a state on, over the lines to be read; `none` is a line that is not text. -/
def converse (quiet : Bool) (s : State) : List (Option String) → Transcript
  | [] => ⟨[if quiet then "" else prompt s], s.env, true⟩
  | none :: _ => ⟨[if quiet then "" else prompt s], s.env, false⟩
  | some line :: rest =>
    Transcript.after (if quiet then "" else prompt s) <|
      if isExit s line then ⟨[], s.env, true⟩
      else
        let (written, next) := step s line
        (converse quiet next rest).after written

/-- A whole dialogue. Unless it is quiet, a banner and prompts are written. -/
def run (quiet : Bool) (env : Environment) (input : List UInt8) : Transcript :=
  (converse quiet (start env) (Lines.ofBytes input)).after
    (if quiet then "" else banner ++ "\n")

end Dialogue

/-! Interactions with an environment: texts that are run against it and dialogues that are held with
it. Each of them begins with what the one before has left, whether that has succeeded or failed. -/

inductive Interaction where
  | run (text : String)
  /-- A dialogue over bytes, which need not be text. -/
  | dialogue (quiet : Bool) (input : List UInt8)

namespace Environment

/-- What an interaction leaves. -/
def interact (env : Environment) : Interaction → Environment
  | .run text => (env.run text).1
  | .dialogue quiet input => (Dialogue.run quiet env input).env

def interactAll (env : Environment) (xs : List Interaction) : Environment := xs.foldl interact env

end Environment

end ExactLinear
