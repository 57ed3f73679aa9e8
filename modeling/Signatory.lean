import Signatory.Package
import Signatory.Scenario.Clock
import Signatory.Scenario.Fetches
import Signatory.Scenario.Nesting
import Signatory.Scenario.Session.Configuration
import Signatory.Scenario.Session.Contact
import Signatory.Proofs.Bytes
import Signatory.Proofs.Cbor.PrefixFree
import Signatory.Proofs.Transaction.Binding
import Signatory.Proofs.Outcome
import Signatory.Proofs.Transaction.Requirements
import Signatory.Proofs.Transaction.Signing
import Signatory.Proofs.Ledger.Accounts
import Signatory.Proofs.Ledger.Submission
import Signatory.Proofs.Gateway.Run
import Signatory.Proofs.Gateway.Answer
import Signatory.Proofs.Ledger.WellBehaved
import Signatory.Proofs.Ledger.Replay
import Signatory.Proofs.Gateway.Replay
import Signatory.Proofs.Gateway.Atomicity
import Signatory.Proofs.Gateway.Acceptance
import Signatory.Proofs.Gateway.Chain
import Signatory.Proofs.Gateway.Drafting
import Signatory.Proofs.Gateway.Pipeline
import Signatory.Proofs.Wire.Transaction
import Signatory.Proofs.Gateway.Snapshot
import Signatory.Proofs.Gateway.History
import Signatory.Proofs.Gateway.Failure
import Signatory.Proofs.Gateway.RemoteEvents
import Signatory.Proofs.Gateway.Events
import Signatory.Proofs.Gateway.Delivery
import Signatory.Proofs.Gateway.Erasure
import Signatory.Proofs.Gateway.Finality
import Signatory.Proofs.Transaction.Gaps
import Signatory.Proofs.Gateway.Agreement
import Signatory.Proofs.Gateway.Foreign
import Signatory.Proofs.Poll.Deadline
import Signatory.Proofs.Gateway.Effect
import Signatory.Proofs.Gateway.Range
import Signatory.Proofs.Argument.Encoding
import Signatory.Proofs.Wire.Faithful
import Signatory.Proofs.Gateway.Control
import Signatory.Proofs.Gateway.AccountTable
import Signatory.Proofs.RateLimit.Interval
import Signatory.Proofs.Account.Address
import Signatory.Proofs.Transaction.Resolution
import Signatory.Proofs.Key.Signature
