import SExprViewer.Expr.Report
import SExprViewer.ObjectId
import SExprViewer.LogLevel
import SExprViewer.Draw.DisplayList
import SExprViewer.Draw.EncodedScene
import SExprViewer.Page.Viewer
import SExprViewer.Proofs.Expr.Grammar
import SExprViewer.Proofs.Expr.Extension
import SExprViewer.Proofs.Expr.RoundTrip
import SExprViewer.Proofs.Expr.Limits
import SExprViewer.Proofs.Diagram.Mirror
import SExprViewer.Proofs.Viewport.Picking
import SExprViewer.Proofs.Viewport.Marks
import SExprViewer.Proofs.Viewport.Reading
import SExprViewer.Proofs.Viewport.Hover
import SExprViewer.Proofs.Viewport.Relayout
import SExprViewer.Proofs.Viewport.Document
import SExprViewer.Proofs.Viewport.Fit
import SExprViewer.Proofs.Viewer.Operation
import SExprViewer.Proofs.Viewer.Reading
import SExprViewer.Proofs.Viewer.Widths
import SExprViewer.Proofs.Stage.Requests
import SExprViewer.Proofs.Stage.Frames
import SExprViewer.Proofs.Stage.Picture
import SExprViewer.Proofs.Draw.Surfaces
import SExprViewer.Proofs.Viewport.Refit
import SExprViewer.Proofs.Viewport.Ownership
import SExprViewer.Proofs.Viewport.History
import SExprViewer.Proofs.Viewer.Refusal
import SExprViewer.Proofs.Stage.Clearing
import SExprViewer.Proofs.Viewport.Answer
import SExprViewer.Proofs.Viewport.Scale
import SExprViewer.Proofs.Viewport.Drag
import SExprViewer.Proofs.Number.ModelRounding
import SExprViewer.Proofs.Number.Product
import SExprViewer.Proofs.Viewport.Range
import SExprViewer.Proofs.Diagram.FirstHit
import SExprViewer.Proofs.Diagram.Enclosure
import SExprViewer.Proofs.Settings.Selection
import SExprViewer.Proofs.Diagram.Slots
import SExprViewer.Proofs.Diagram.Growth
import SExprViewer.Proofs.Color.Accepted
import SExprViewer.Proofs.Expr.Report
import SExprViewer.Proofs.Text.Scans
import SExprViewer.Proofs.Expr.Careful
import SExprViewer.Proofs.Diagram.Cascade
import SExprViewer.Proofs.Stage.Identity
