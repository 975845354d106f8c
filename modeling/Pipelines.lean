import Pipelines.Config
import Pipelines.Error
import Pipelines.Event
import Pipelines.Exchange.Blank
import Pipelines.Exchange.Form
import Pipelines.Exchange.Member
import Pipelines.Exchange.Number
import Pipelines.Exchange.Number.Binary64
import Pipelines.Exchange.Number.Shortest
import Pipelines.Exchange.Quotation
import Pipelines.Exchange.Quotation.Escape
import Pipelines.Exchange.ReadError
import Pipelines.Exchange.Reader
import Pipelines.Exchange.Record
import Pipelines.Exchange.Sequence
import Pipelines.Exchange.Skip
import Pipelines.Exchange.Skip.Token
import Pipelines.Exchange.Storage
import Pipelines.Exchange.Tree
import Pipelines.Exchange.Variant
import Pipelines.Exchange.Written
import Pipelines.Expansion
import Pipelines.Expr.Basic
import Pipelines.Expr.Flatten
import Pipelines.Expr.Hole
import Pipelines.Expr.Render
import Pipelines.Outcome
import Pipelines.Session
import Pipelines.Statement
import Pipelines.Step
import Pipelines.Supply
import Pipelines.Text.Alphanumeric
import Pipelines.Text.Blank
import Pipelines.Text.Combining
import Pipelines.Text.Quoted
import Pipelines.Text.Ranges
import Pipelines.Text.Unprintable
import Pipelines.Threading
import Pipelines.Threading.Size
import Pipelines.Transform
import Pipelines.Proofs.Boundary
import Pipelines.Proofs.Expands
import Pipelines.Proofs.Nodes
import Pipelines.Proofs.Targets
import Pipelines.Proofs.Threaded
import Pipelines.Proofs.Visits
import Pipelines.Proofs.Remaining
import Pipelines.Proofs.Overlooked
import Pipelines.Proofs.Fresh
import Pipelines.Proofs.Meaning.Evaluation
import Pipelines.Proofs.Meaning.Frame
import Pipelines.Proofs.Meaning.Steady
import Pipelines.Proofs.Meaning.Passing
import Pipelines.Proofs.Meaning.Preservation
import Pipelines.Proofs.Asides
import Pipelines.Proofs.Settling
import Pipelines.Proofs.Hygiene
import Pipelines.Proofs.Openings
import Pipelines.Proofs.Termination
import Pipelines.Proofs.Exchange.Quotation
import Pipelines.Proofs.Exchange.Reads
import Pipelines.Proofs.Exchange.RoundTrip
import Pipelines.Proofs.Exchange.Room
import Pipelines.Proofs.Payloads
import Pipelines.Proofs.Exchange.Spelling
import Pipelines.Proofs.Exchange.Spelling.Text
import Pipelines.Proofs.Exchange.Spelling.Number
import Pipelines.Proofs.Exchange.Spelling.Passing
import Pipelines.Proofs.Exchange.Spelling.Entry
import Pipelines.Proofs.Exchange.Spelling.Record
import Pipelines.Proofs.Exchange.Spelling.Tree
import Pipelines.Proofs.Exchange.Spelling.Written
import Pipelines.Proofs.Layers
import Pipelines.Proofs.Exchange.Expanded
import Pipelines.Proofs.Reserved
import Pipelines.Proofs.Receiving
import Pipelines.Proofs.Renaming
import Pipelines.Proofs.Lockstep
import Pipelines.Proofs.Locality
import Pipelines.Proofs.Refusal
import Pipelines.Proofs.Flattened
import Pipelines.Proofs.Standalone
import Pipelines.Proofs.Reports
import Pipelines.Proofs.Destructuring
import Pipelines.Proofs.Sequencing
import Pipelines.Proofs.Paths
import Pipelines.Proofs.Composition
import Pipelines.Proofs.Drawing
import Pipelines.Proofs.Growth
import Pipelines.Proofs.Classified
import Pipelines.Proofs.Exchange.Stable.Token
import Pipelines.Proofs.Exchange.Stable
import Pipelines.Proofs.Exchange.Truncated
import Pipelines.Proofs.Rendered
