import LetPoly.Main
import LetPoly.Text.Width
import LetPoly.Layout.Basic
import LetPoly.Proofs.Term
import LetPoly.Proofs.Tree
import LetPoly.Proofs.Links
import LetPoly.Proofs.View
import LetPoly.Proofs.Canonical
import LetPoly.Proofs.Index
import LetPoly.Proofs.Surface
import LetPoly.Proofs.Traversal
import LetPoly.Proofs.Unification.Binding
import LetPoly.Proofs.Unification.Depth
import LetPoly.Proofs.Unification.MostGeneral
import LetPoly.Proofs.Extension
import LetPoly.Proofs.Replacing
import LetPoly.Proofs.Scheme
import LetPoly.Proofs.Inference.Supply
import LetPoly.Proofs.Inference.Steps
import LetPoly.Proofs.Inference.Typing
import LetPoly.Proofs.Inference.Task
import LetPoly.Proofs.Inference.Sound
import LetPoly.Proofs.Inference.Scan
import LetPoly.Proofs.Inference.Principal
import LetPoly.Proofs.Unification.Visible
import LetPoly.Proofs.Unification.Order
import LetPoly.Proofs.Workspace.History
import LetPoly.Proofs.Budget
import LetPoly.Proofs.Unification.Endings
import LetPoly.Proofs.Workspace.Reached
import LetPoly.Proofs.Shown
import LetPoly.Proofs.Renaming
import LetPoly.Proofs.Layout.Rendering
import LetPoly.Proofs.Printing.Names
import LetPoly.Proofs.Printing.Outline
import LetPoly.Proofs.Printing.Tokens
import LetPoly.Proofs.Printing.Unambiguous
import LetPoly.Proofs.Batch.Lockstep
import LetPoly.Proofs.Batch.Mirror
import LetPoly.Proofs.Batch.Twin
import LetPoly.Proofs.Batch.Schemes
import LetPoly.Proofs.Batch.Inference
import LetPoly.Proofs.Batch.Copies
import LetPoly.Proofs.Batch.Prelude
import LetPoly.Proofs.Batch.Results
import LetPoly.Proofs.Batch.Single
import LetPoly.Proofs.Batch.Isolation
import LetPoly.Proofs.Command.Files
import LetPoly.Proofs.Decoding.Grammar
import LetPoly.Proofs.Decoding.Nodes
import LetPoly.Proofs.Decoding.Exact
import LetPoly.Proofs.Decoding.Nesting
import LetPoly.Proofs.Decoding.Safety
import LetPoly.Proofs.Inference.Raise
import LetPoly.Proofs.Inference.LevelIndependence
import LetPoly.Proofs.Workspace.Draws
import LetPoly.Proofs.Workspace.Scopes
import LetPoly.Proofs.Workspace.Independence
import LetPoly.Proofs.Unification.Levels
import LetPoly.Proofs.Unification.Repeated
import LetPoly.Proofs.Scheme.Instances
import LetPoly.Proofs.Scheme.RoundTrip
import LetPoly.Proofs.Inference.FirstOffence
import LetPoly.Proofs.Layout.Reference
import LetPoly.Proofs.Layout.Lines
import LetPoly.Proofs.Layout.Columns
import LetPoly.Proofs.Printing.Lines
import LetPoly.Proofs.Layout.Algebra
import LetPoly.Proofs.Batch.Exhaustion
import LetPoly.Proofs.Command.AllOrNothing
import LetPoly.Proofs.Inference.Straight
import LetPoly.Proofs.Printing.Reading
import LetPoly.Proofs.Rows
import LetPoly.Proofs.Contents
import LetPoly.Proofs.Text.Order
import LetPoly.Proofs.Text.EditDistance
import LetPoly.Proofs.Inference.Suggestion
import LetPoly.Proofs.Command.Configuration
