import NwcMobile.Foundations.Table
import NwcMobile.Foundations.Evolution
import NwcMobile.Foundations.Transition
import NwcMobile.Foundations.Fencing
import NwcMobile.Types
import NwcMobile.Crates
import NwcMobile.Ledger.Operations
import NwcMobile.Ledger.PaymentEffects
import NwcMobile.Ledger.RegistryEffects
import NwcMobile.Ledger.ClaimEffects
import NwcMobile.Ledger.Budget
import NwcMobile.Ledger.Limits
import NwcMobile.Ledger.Lifecycle
import NwcMobile.Ledger.Leases
import NwcMobile.Foundations.Concurrent
import NwcMobile.NostrValidation
import NwcMobile.Engine.Payment
import NwcMobile.Engine.Execute
import NwcMobile.Engine.ConnectionService
import NwcMobile.Engine.Reconciliation
import NwcMobile.Engine.System
import NwcMobile.Engine.Revocation
import NwcMobile.Engine.Guarded
import NwcMobile.Ledger.Freshness
import NwcMobile.Engine.Authorization
import NwcMobile.Engine.Publication
import NwcMobile.Engine.Guards
import NwcMobile.Engine.Replay
import NwcMobile.Ledger.Attribution
import NwcMobile.Engine.Conduct
import NwcMobile.Engine.Attempts
import NwcMobile.Engine.Disclosure
import NwcMobile.Engine.Initiation
import NwcMobile.Foreground
import NwcMobile.Engine.Foreground
import NwcMobile.Engine.Footprint
import NwcMobile.Engine.Rounding
import NwcMobile.Engine.LeaseBudget
import NwcMobile.Engine.Usage
import NwcMobile.Engine.Handling
import NwcMobile.Ledger.RoundTrip
import NwcMobile.Nwa
import NwcMobile.ApplicationMetadata
import NwcMobile.WakeInbox
import NwcMobile.Engine.Interference
import NwcMobile.Ledger.Periods
import NwcMobile.TransactionPages
import NwcMobile.ConnectionRelays
import NwcMobile.NwaAuthority
import NwcMobile.Ledger.InvoiceRotation
import NwcMobile.RegistrationCoordinator
import NwcMobile.Ledger.PaymentQueue
import NwcMobile.Ledger.Outbox
import NwcMobile.Engine.ReconcileReport
import NwcMobile.Engine.LegacyImport
import NwcMobile.Engine.NotificationFairness
import NwcMobile.WakeEnvelope
import NwcMobile.ApplicationIcon
import NwcMobile.DisplayText
import NwcMobile.PublicHosts
import NwcMobile.RegistrationWorker
import NwcMobile.NwaApproval
import NwcMobile.Engine.InvoiceOnce
import NwcMobile.Ledger.NotificationRows
import NwcMobile.Engine.NotificationConduct
import NwcMobile.Engine.NotificationSystem
import NwcMobile.Engine.NotificationOnce
import NwcMobile.Engine.NotificationOrigin
import NwcMobile.Engine.NotificationScope
import NwcMobile.Engine.FrozenPayments
import NwcMobile.Ledger.Legible
