import ExactLinear.Evaluation.Expression
import ExactLinear.Syntax.Reading.Statement

/- Running texts against an environment. A text is read as a whole before anything
   of it is run, so a text that is not a program changes nothing. -/
namespace ExactLinear

/-- Why running a text fails: it is not a program, or the program fails. -/
inductive SourceError where
  | parse (e : ParseError)
  | runtime (e : RuntimeError)
  deriving DecidableEq, Repr

namespace SourceError

def message : SourceError → String
  | .parse e => e.message
  | .runtime e => e.message

/-- Whether more text may turn the failure into a success. -/
def isIncomplete : SourceError → Bool
  | .parse e => e.isIncomplete
  | .runtime _ => false

end SourceError

/-- Runs a text and gives the value of its last statement that has one. -/
def Environment.run (env : Environment) (text : String) : Outcome SourceError :=
  match parse text with
  | .error e => (env, .error (.parse e))
  | .ok statements =>
    match env.executeAll none statements with
    | (after, .ok value) => (after, .ok value)
    | (after, .error e) => (after, .error (.runtime e))

/-- The value of a text run on its own. -/
def valueOf (text : String) : Except SourceError (Option Value) := (Environment.empty.run text).2

/-! Requests to an environment: texts to be run, and syntax trees from elsewhere to be executed or
evaluated. They are answered one after the other, and a failure ends no more than the request that
it happens in. -/

inductive Request where
  | run (text : String)
  | execute (s : Statement)
  | evaluate (e : Expr)

namespace Environment

def answer (env : Environment) : Request → Outcome SourceError
  | .run text => env.run text
  | .execute s => ((env.execute s).1, (env.execute s).2.mapError .runtime)
  | .evaluate e => (env, ((env.evaluate e).map some).mapError .runtime)

/-- The environment after all requests, and the answers to them in order. -/
def answerAll (env : Environment) :
    List Request → Environment × List (Except SourceError (Option Value))
  | [] => (env, [])
  | r :: rest =>
    let answered := env.answer r
    let later := answered.1.answerAll rest
    (later.1, answered.2 :: later.2)

end Environment

end ExactLinear
