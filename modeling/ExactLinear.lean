import ExactLinear.Main
import ExactLinear.Evaluation.Kind
import ExactLinear.Proofs.Evaluation.Outcome
import ExactLinear.Proofs.Solvable
import ExactLinear.Proofs.RowSpace
import ExactLinear.Proofs.NullSpace
import ExactLinear.Proofs.Independence
import ExactLinear.Proofs.Dialogue
import ExactLinear.Proofs.Dialogue.Chunk
import ExactLinear.Proofs.ErrorLine
import ExactLinear.Proofs.BoundNames
import ExactLinear.Proofs.Writing.Program
import ExactLinear.Proofs.Evaluation.Kind
import ExactLinear.Proofs.Entries
import ExactLinear.Proofs.Printed
import ExactLinear.Proofs.Writing.Constant
import ExactLinear.Storage.Checked
import ExactLinear.Storage.Elimination
import ExactLinear.Storage.Content
import ExactLinear.Storage.Session
import ExactLinear.Proofs.Storage.Checked
import ExactLinear.Proofs.Storage.Table
import ExactLinear.Proofs.Storage.Elimination
import ExactLinear.Proofs.Storage.Space
import ExactLinear.Proofs.Storage.Content
import ExactLinear.Proofs.Storage.Session
import ExactLinear.Proofs.Elimination.FirstColumns
import ExactLinear.Proofs.Elimination.Idempotence
import ExactLinear.Proofs.Elimination.Log
import ExactLinear.Proofs.Solution
import ExactLinear.Proofs.Refusal
import ExactLinear.Proofs.Evaluation.Refusal
import ExactLinear.Proofs.Block
import ExactLinear.Proofs.ElementaryMatrix
import ExactLinear.Proofs.Regrouping
import ExactLinear.Proofs.Construction
import ExactLinear.Proofs.Evaluation.Substitution
import ExactLinear.Proofs.Evaluation.Frame
import ExactLinear.Proofs.Reading.Separation
import ExactLinear.Proofs.Munch
import ExactLinear.Proofs.LineCut
import ExactLinear.Proofs.Alignment
import ExactLinear.Proofs.PlaceValue
import ExactLinear.Proofs.Reading.RecursiveDescent
