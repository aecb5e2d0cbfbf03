import Eligibility.Binary64.Basic
import Eligibility.Binary64.Shortest
import Eligibility.Binary64.Text
import Eligibility.Blake3
import Eligibility.Catalog
import Eligibility.Combination
import Eligibility.Condition
import Eligibility.Context
import Eligibility.Error
import Eligibility.Evaluation
import Eligibility.Formula.Error
import Eligibility.Formula.Reduction
import Eligibility.Formula.Token
import Eligibility.Instant.Basic
import Eligibility.Instant.Text
import Eligibility.Json.Basic
import Eligibility.Json.Number
import Eligibility.Json.Reader
import Eligibility.Json.Writer
import Eligibility.Loading.Basic
import Eligibility.Loading.Record
import Eligibility.Loading.Schema
import Eligibility.Loading.Tree
import Eligibility.Numeral
import Eligibility.Predicates
import Eligibility.Proofs.Agreement
import Eligibility.Proofs.Atomicity
import Eligibility.Proofs.Binary64.Order
import Eligibility.Proofs.Canonicity
import Eligibility.Proofs.Catalog
import Eligibility.Proofs.Combination
import Eligibility.Proofs.Combining
import Eligibility.Proofs.Condition
import Eligibility.Proofs.Equivalence
import Eligibility.Proofs.Evaluation
import Eligibility.Proofs.Faults
import Eligibility.Proofs.Footprint
import Eligibility.Proofs.Formula.Alphabet
import Eligibility.Proofs.Formula.Alternation
import Eligibility.Proofs.Formula.Calls
import Eligibility.Proofs.Formula.Composition
import Eligibility.Proofs.Formula.Conservation
import Eligibility.Proofs.Formula.Disjunction
import Eligibility.Proofs.Formula.Grammar
import Eligibility.Proofs.Formula.Items
import Eligibility.Proofs.Formula.Lexing
import Eligibility.Proofs.Formula.Meaning
import Eligibility.Proofs.Formula.Operands
import Eligibility.Proofs.Formula.Printing
import Eligibility.Proofs.Formula.Readback
import Eligibility.Proofs.Formula.Rounds
import Eligibility.Proofs.Formula.Scanning
import Eligibility.Proofs.Formula.Spacing
import Eligibility.Proofs.Formula.Unambiguity
import Eligibility.Proofs.Formula.Words
import Eligibility.Proofs.Instant.Order
import Eligibility.Proofs.Instant.RoundTrip
import Eligibility.Proofs.Json.RoundTrip
import Eligibility.Proofs.Ledger
import Eligibility.Proofs.Limit
import Eligibility.Proofs.Listing
import Eligibility.Proofs.Loading.Document
import Eligibility.Proofs.Loading.Recognition
import Eligibility.Proofs.Loading.RoundTrip
import Eligibility.Proofs.Loop
import Eligibility.Proofs.Measures
import Eligibility.Proofs.Naming
import Eligibility.Proofs.Provenance
import Eligibility.Proofs.Report
import Eligibility.Proofs.Restoration
import Eligibility.Proofs.Results
import Eligibility.Proofs.Retention
import Eligibility.Proofs.Session
import Eligibility.Proofs.Snapshot.Damage
import Eligibility.Proofs.Snapshot.Header
import Eligibility.Proofs.Snapshot.Payload
import Eligibility.Proofs.Snapshot.RoundTrip
import Eligibility.Proofs.Soundness
import Eligibility.Proofs.Store
import Eligibility.Proofs.StrictDisjunction
import Eligibility.Proofs.Text.ByteOrder
import Eligibility.Proofs.Thresholds
import Eligibility.Proofs.Tree.Count
import Eligibility.Proofs.Tree.Height
import Eligibility.Proofs.Tree.Position
import Eligibility.Proofs.Tree.Stored
import Eligibility.Proofs.Tree.Walk
import Eligibility.Proofs.Validation
import Eligibility.Record
import Eligibility.Report
import Eligibility.Rule
import Eligibility.Schema
import Eligibility.Session
import Eligibility.Snapshot.Basic
import Eligibility.Snapshot.Error
import Eligibility.Snapshot.Payload
import Eligibility.Store
import Eligibility.Table
import Eligibility.Text.Blank
import Eligibility.Text.Hidden
import Eligibility.Text.Name
import Eligibility.Text.Quoted
import Eligibility.Tree.Basic
import Eligibility.Tree.Defect
import Eligibility.Tree.Stored
import Eligibility.Validation
import Eligibility.Value
