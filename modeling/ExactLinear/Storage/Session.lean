import ExactLinear.Session
import ExactLinear.Storage.Content

/- Requests answered with stored values. Everything runs as it does with values that
   carry their shape in their type, up to the point where the program would stop. -/
namespace ExactLinear.Storage

/-- The stored values that names are bound to. -/
abbrev Bindings := String → Option Content

def onLine {α : Type} (line : Nat) (r : Checked RuntimeCause α) : Checked RuntimeError α :=
  retold (fun cause => ⟨cause, line⟩) r

namespace Bindings

def empty : Bindings := fun _ => none

def set (names : Bindings) (name : String) (value : Content) : Bindings :=
  fun other => if name = other then some value else names other

mutual

def evaluate (names : Bindings) : Expr → Checked RuntimeError Content
  | .literal value _ => .ok (.ofValue value)
  | .var name line =>
    match names name with
    | some value => .ok value
    | none => .error (.refusal ⟨.undefinedVariable name, line⟩)
  | .neg operand line => do
    let value ← evaluate names operand
    onLine line value.negate
  | .binary op left right line => do
    let l ← evaluate names left
    let r ← evaluate names right
    onLine line (Content.combine op l r)
  | .call f arguments line =>
    if f.arity.accepts arguments.length then do
      let values ← evaluateAll names arguments
      onLine line (Content.call f values)
    else .error (.refusal ⟨.arity f arguments.length, line⟩)
  | .rows entries line => do
    let values ← evaluateRows names entries
    onLine line (Content.ofAlgebra .table (Table.ofRows values))

def evaluateAll (names : Bindings) : List Expr → Checked RuntimeError (List Content)
  | [] => .ok []
  | e :: rest => do
    let value ← evaluate names e
    let values ← evaluateAll names rest
    return value :: values

def evaluateRow (names : Bindings) : List Expr → Checked RuntimeError (List Scalar)
  | [] => .ok []
  | e :: rest => do
    let value ← evaluate names e
    let q ← onLine e.line (value.asScalar entryContext)
    let qs ← evaluateRow names rest
    return q :: qs

def evaluateRows (names : Bindings) :
    List (List Expr) → Checked RuntimeError (List (List Scalar))
  | [] => .ok []
  | row :: rest => do
    let qs ← evaluateRow names row
    let rows ← evaluateRows names rest
    return qs :: rows

end

mutual

def execute (names : Bindings) : Statement → Bindings × Checked RuntimeError (Option Content)
  | .assign name e _ =>
    match evaluate names e with
    | .ok value => (names.set name value, .ok none)
    | .error stop => (names, .error stop)
  | .evaluate e _ => (names, (evaluate names e).map some)
  | .block body _ => executeAll names none body

def executeAll (names : Bindings) (last : Option Content) :
    List Statement → Bindings × Checked RuntimeError (Option Content)
  | [] => (names, .ok last)
  | s :: rest =>
    match execute names s with
    | (after, .ok value) => executeAll after (value.or last) rest
    | (after, .error stop) => (after, .error stop)

end

def run (names : Bindings) (text : String) : Bindings × Checked SourceError (Option Content) :=
  match parse text with
  | .error e => (names, .error (.refusal (.parse e)))
  | .ok statements =>
    ((executeAll names none statements).1, retold .runtime (executeAll names none statements).2)

def answer (names : Bindings) : Request → Bindings × Checked SourceError (Option Content)
  | .run text => names.run text
  | .execute s => ((execute names s).1, retold .runtime (execute names s).2)
  | .evaluate e => (names, retold .runtime ((evaluate names e).map some))

/-- The bindings after all requests, and the answers to them in order. -/
def answerAll (names : Bindings) :
    List Request → Bindings × List (Checked SourceError (Option Content))
  | [] => (names, [])
  | r :: rest =>
    let answered := names.answer r
    let later := answered.1.answerAll rest
    (later.1, answered.2 :: later.2)

end Bindings

end ExactLinear.Storage
