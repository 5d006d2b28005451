import Provisioning.Chart.Rendering
import Provisioning.State.Document
import Provisioning.Proofs.Json.Written
import Provisioning.Proofs.ProviderConfig
import Provisioning.Proofs.Decimal.Shortest
import Provisioning.Proofs.Decimal.Numeral
import Provisioning.Proofs.Decimal.Notation
import Provisioning.Proofs.Json.Grammar
import Provisioning.Proofs.Json.Equality
import Provisioning.Proofs.Status
import Provisioning.Proofs.Json.Survey
import Provisioning.Proofs.Schema.Surveying
import Provisioning.Proofs.Schema.Parts
import Provisioning.Proofs.Json.Extension
import Provisioning.Proofs.Schema.Extension
import Provisioning.Proofs.Truncation
import Provisioning.Proofs.Request
import Provisioning.Proofs.State.Document
import Provisioning.Proofs.State.Extraction
import Provisioning.Proofs.State.Selection
import Provisioning.Proofs.State.Answers
import Provisioning.Proofs.State.Asking
import Provisioning.Proofs.Chart.Agreement
import Provisioning.Proofs.Chart.Files
import Provisioning.Proofs.Chart.Values
import Provisioning.Proofs.Chart.Rendering
import Provisioning.Proofs.Schema.Rearranging
import Provisioning.Proofs.State.Recovery
import Provisioning.Proofs.Rearrangement
import Provisioning.Proofs.State.Batch
import Provisioning.Proofs.Schema.Refusing
import Provisioning.Proofs.Schema.Skimming
import Provisioning.Proofs.Schema.Repeating
import Provisioning.Proofs.Repetition
import Provisioning.Proofs.Forms
import Provisioning.Proofs.Json.Canonical
import Provisioning.Proofs.State.Canonical
import Provisioning.Proofs.Chart.Insertion
import Provisioning.Proofs.Schema.Layout
import Provisioning.Proofs.ServiceAccount
import Provisioning.Proofs.Json.Word
import Provisioning.Proofs.State.Version
import Provisioning.Proofs.Schema.Fitting
import Provisioning.Proofs.Schema.Thinning
import Provisioning.Proofs.Absence
import Provisioning.Proofs.Events
import Provisioning.Proofs.Naming
