import TuringTable.Main
import TuringTable.Proofs.Tape.Line
import TuringTable.Proofs.Machine.Step
import TuringTable.Proofs.Machine.Textbook
import TuringTable.Proofs.Machine.Latch
import TuringTable.Proofs.Machine.Session
import TuringTable.Proofs.Machine.Lockstep
import TuringTable.Proofs.Machine.Advance
import TuringTable.Proofs.Closed
import TuringTable.Proofs.Document.Checked
import TuringTable.Proofs.Document.Grammar
import TuringTable.Proofs.Document.Reading
import TuringTable.Proofs.Document.Acceptance
import TuringTable.Proofs.CommandLine.Execution
import TuringTable.Proofs.CommandLine.Trace
import TuringTable.Proofs.CommandLine.Report
import TuringTable.Proofs.Diagram.Table
import TuringTable.Proofs.Reachability
import TuringTable.Proofs.Wildcard
import TuringTable.Proofs.Document.Faults
import TuringTable.Proofs.Document.FirstFault
import TuringTable.Proofs.Document.Edit
import TuringTable.Proofs.Document.Synonyms
import TuringTable.Proofs.Machine.Observers
import TuringTable.Proofs.Document.Tags
import TuringTable.Proofs.Document.Order
import TuringTable.Proofs.Document.Canonical
import TuringTable.Proofs.Json
import TuringTable.Proofs.Renaming
import TuringTable.Proofs.Diagram.Paths
import TuringTable.Proofs.Machine.Compose
import TuringTable.Proofs.Undeclared
import TuringTable.Proofs.Document.Overrides
import TuringTable.Proofs.Document.Symbols
import TuringTable.Proofs.Tape.Extent
import TuringTable.Proofs.Diagram.Canonical
import TuringTable.Proofs.Catalog.Increment
import TuringTable.Proofs.Catalog.Copy
import TuringTable.Proofs.Catalog.Remainder
import TuringTable.Proofs.Catalog.Parity
import TuringTable.Proofs.Catalog.Loading
import TuringTable.Proofs.Directory
import TuringTable.Proofs.Machine.Counters
import TuringTable.Proofs.CommandLine.Override
