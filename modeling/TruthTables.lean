import TruthTables.Grammar
import TruthTables.Main
import TruthTables.Proofs.Parentheses
import TruthTables.Proofs.Shape
import TruthTables.Proofs.Grammar
import TruthTables.Proofs.Reading
import TruthTables.Proofs.Evaluation
import TruthTables.Proofs.Lookup
import TruthTables.Proofs.Counting
import TruthTables.Proofs.Fill
import TruthTables.Proofs.Table
import TruthTables.Proofs.Enumeration
import TruthTables.Proofs.Meaning
import TruthTables.Proofs.Acceptance
import TruthTables.Proofs.Alike
import TruthTables.Proofs.Failure
import TruthTables.Proofs.Trace
import TruthTables.Proofs.Header
import TruthTables.Proofs.Valuations
import TruthTables.Proofs.Blank
import TruthTables.Proofs.Csv.Reader
import TruthTables.Proofs.Projection
import TruthTables.Proofs.Csv.Headers
import TruthTables.Proofs.Csv.Writer
import TruthTables.Proofs.Csv.RoundTrip
import TruthTables.Proofs.Diagnosis
import TruthTables.Proofs.Normalize
import TruthTables.Proofs.Substitution
import TruthTables.Proofs.Composition
import TruthTables.Proofs.Renaming
import TruthTables.Proofs.Render
import TruthTables.Proofs.CommandLine.Report
import TruthTables.Proofs.RenamedTexts
import TruthTables.Proofs.Grouping
import TruthTables.Proofs.Learning
import TruthTables.Proofs.Index
import TruthTables.Proofs.Bracketing
import TruthTables.Proofs.Scan
import TruthTables.Proofs.Plain
import TruthTables.Proofs.Latex
import TruthTables.Proofs.Csv.Lines
import TruthTables.Proofs.Partners
import TruthTables.Proofs.Spans
import TruthTables.Proofs.Visits
import TruthTables.Proofs.CommandLine.Output
import TruthTables.Proofs.CommandLine.Run
