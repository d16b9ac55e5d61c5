import SmallLisp.Main
import SmallLisp.Editor.Session
import SmallLisp.Service.Connection
import SmallLisp.Value.Inspect
import SmallLisp.Proofs.RoundTrip
import SmallLisp.Proofs.DefectFreedom
import SmallLisp.Proofs.Coercion
import SmallLisp.Proofs.Equality
import SmallLisp.Proofs.Strictness
import SmallLisp.Proofs.Analysis
import SmallLisp.Proofs.Documents
import SmallLisp.Proofs.Framing
import SmallLisp.Proofs.Answering
import SmallLisp.Proofs.Connection
import SmallLisp.Proofs.Levels
import SmallLisp.Proofs.Transparency
import SmallLisp.Proofs.Drivers
import SmallLisp.Proofs.Agreement
import SmallLisp.Proofs.Streaming
import SmallLisp.Proofs.Cursor
import SmallLisp.Proofs.Descent
import SmallLisp.Proofs.Image
import SmallLisp.Proofs.Requests
import SmallLisp.Proofs.Trailing
import SmallLisp.Proofs.Quoting
import SmallLisp.Proofs.Laziness
import SmallLisp.Proofs.Layout
import SmallLisp.Proofs.Lines
import SmallLisp.Proofs.ByLine
import SmallLisp.Proofs.Columns
import SmallLisp.Proofs.EditorLines
import SmallLisp.Proofs.Words
import SmallLisp.Proofs.Runs
import SmallLisp.Proofs.Numeral
import SmallLisp.Proofs.Folding
import SmallLisp.Proofs.Division
import SmallLisp.Proofs.NumberText
import SmallLisp.Proofs.Literals
import SmallLisp.Proofs.Tiling
import SmallLisp.Proofs.Families
import SmallLisp.Proofs.Shallow
import SmallLisp.Proofs.StandIn
