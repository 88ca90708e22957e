import Docket.Audit.Encoding
import Docket.Config.Connection
import Docket.Config.File
import Docket.Decimal.Text
import Docket.Lifecycle.Transition
import Docket.Issuing.Validation
import Docket.Service.Request
import Docket.Simulation.Interference
import Docket.Simulation.Snapshot
import Docket.Proofs.Gapless
import Docket.Proofs.Uniqueness
import Docket.Proofs.Serial
import Docket.Proofs.Failure
import Docket.Proofs.Guarantees
import Docket.Proofs.Returns
import Docket.Proofs.Isolation
import Docket.Proofs.Entries
import Docket.Proofs.Readable
import Docket.Proofs.Numbering
import Docket.Proofs.Starting
import Docket.Audit.Delivery
import Docket.Proofs.Trail
import Docket.Proofs.Contents
import Docket.Proofs.Overflows
import Docket.Proofs.Amounts
import Docket.Proofs.Rounding
import Docket.Proofs.Exactness
import Docket.Proofs.Magnitudes
import Docket.Proofs.Dates
import Docket.Proofs.Timestamps
import Docket.Proofs.Succession
import Docket.Proofs.Recency
import Docket.Proofs.Binary
import Docket.Proofs.Precision
import Docket.Proofs.Recall
import Docket.Proofs.Retirement
import Docket.Proofs.Vacancy
import Docket.Proofs.Preference
import Docket.Proofs.Readback
import Docket.Proofs.Patterns
import Docket.Proofs.Rendering
import Docket.Proofs.Appearance
import Docket.Proofs.Verdicts
import Docket.Proofs.Rehearsal
import Docket.Proofs.Reconfiguration
import Docket.Proofs.Streams
import Docket.Proofs.Races
import Docket.Proofs.Reports
import Docket.Proofs.Lossless
import Docket.Proofs.Attempts
