import Precedent.Main
import Precedent.Settings.Reader
import Precedent.Files.Disk
import Precedent.Proofs.Network.Rows
import Precedent.Proofs.Network.Transpose
import Precedent.Proofs.Network.Citing
import Precedent.Proofs.Network.Docket
import Precedent.Proofs.Network.Acceptance
import Precedent.Proofs.Network.Admission
import Precedent.Proofs.Network.Resolution
import Precedent.Proofs.Network.Register
import Precedent.Proofs.Network.Drawn
import Precedent.Proofs.Network.Arrival
import Precedent.Proofs.Network.Representation
import Precedent.Proofs.Network.Counts
import Precedent.Proofs.Network.Chronology
import Precedent.Proofs.Network.LinkTable
import Precedent.Proofs.Network.Chain
import Precedent.Proofs.Network.Depths
import Precedent.Proofs.Network.Sweep
import Precedent.Proofs.Network.Distances
import Precedent.Proofs.Network.Walk
import Precedent.Proofs.Network.Degrees
import Precedent.Proofs.Trim.Kept
import Precedent.Proofs.Trim.Walks
import Precedent.Proofs.Network.Unresolved
import Precedent.Proofs.Chart.Unresolved
import Precedent.Proofs.Network.Loops
import Precedent.Proofs.Lookup.History
import Precedent.Proofs.Lookup.Recency
import Precedent.Proofs.Lookup.Authorities
import Precedent.Proofs.Genealogy.Counts
import Precedent.Proofs.Json.Members
import Precedent.Proofs.Text.Written
import Precedent.Proofs.Calendar.Written
import Precedent.Proofs.Json.Tokens
import Precedent.Proofs.Json.RoundTrip
import Precedent.Proofs.Report.Readable
import Precedent.Proofs.Report.Saved
import Precedent.Proofs.Report.Balance
import Precedent.Proofs.Document.Acceptance
import Precedent.Proofs.Network.Crossings
import Precedent.Proofs.Genealogy.Ascent
import Precedent.Proofs.Network.Widening
import Precedent.Proofs.Trim.Unconnected
import Precedent.Proofs.Genealogy.Preference
import Precedent.Proofs.Trim.Endpoints
import Precedent.Proofs.Trim.ParentLinks
import Precedent.Proofs.Network.Nearness
import Precedent.Proofs.Network.Extension
import Precedent.Proofs.Trim.Nested
import Precedent.Proofs.Trim.Extension
import Precedent.Proofs.Chart.Lines
import Precedent.Proofs.Chart.Spread
import Precedent.Proofs.Chart.Rows
import Precedent.Proofs.Opinion.Spelling
import Precedent.Proofs.Calendar.Timestamp
import Precedent.Proofs.Document.Shapes
import Precedent.Proofs.Chart.Splits
import Precedent.Proofs.Trim.Positions
import Precedent.Proofs.Network.Moments
import Precedent.Proofs.Json.Script
import Precedent.Proofs.Json.Lexemes
import Precedent.Proofs.Json.Soundness
import Precedent.Proofs.Json.Whole
import Precedent.Proofs.Json.Completeness
import Precedent.Proofs.Document.Places
import Precedent.Proofs.Document.Alike
