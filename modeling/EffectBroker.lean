import EffectBroker.PythonText
import EffectBroker.PythonTime
import EffectBroker.OrderedDict
import EffectBroker.StateMachine
import EffectBroker.Contracts
import EffectBroker.Canonical
import EffectBroker.MemoryStore
import EffectBroker.Coroutine
import EffectBroker.Interleaving
import EffectBroker.Engine
import EffectBroker.System
import EffectBroker.CallerProtocol
import EffectBroker.Conformance
import EffectBroker.EffectLife
import EffectBroker.MemoryOperations
import EffectBroker.Coherence
import EffectBroker.UnsafeEffects
import EffectBroker.ProbedEffects
import EffectBroker.EventStream
import EffectBroker.SuccessEvidence
import EffectBroker.DispatchIntent
import EffectBroker.DefiniteOutcomes
import EffectBroker.KeyHorizon
import EffectBroker.SoloRun
import EffectBroker.BrokerRuns
import EffectBroker.ReconcileScope
import EffectBroker.EffectLedger
import EffectBroker.MemoryLedger
import EffectBroker.RelyGuarantee
import EffectBroker.Cancellation
import EffectBroker.VersionFence
import EffectBroker.IsoFormat
import EffectBroker.JsonText
import EffectBroker.JsonRoundTrip
import EffectBroker.Binary64
import EffectBroker.DurationSeconds
import EffectBroker.ContractLoading
import EffectBroker.PostgresRows
import EffectBroker.CanonicalJson
import EffectBroker.PinnedContract
import EffectBroker.SqliteStore
import EffectBroker.LedgerBook
import EffectBroker.LedgerStore
import EffectBroker.Agreement
import EffectBroker.EncodableText
import EffectBroker.SqliteBook
import EffectBroker.SqliteCalls
import EffectBroker.SqliteReads
import EffectBroker.EventStory
import EffectBroker.MemoryBook
import EffectBroker.TwinBooks
import EffectBroker.StoreSimulation
import EffectBroker.Fingerprint
import EffectBroker.DownstreamKeys
import EffectBroker.Leases
import EffectBroker.MeterProtocol
import EffectBroker.DictTotals
import EffectBroker.StoreTallies
import EffectBroker.MeteredRuns
import EffectBroker.ResultCounters
import EffectBroker.UnknownGauge
import EffectBroker.RetryLimit
import EffectBroker.WorkerBatches
import EffectBroker.SettlementBound
import EffectBroker.BrokerCalls
import EffectBroker.TenantBooks
import EffectBroker.TenantIsolation
import EffectBroker.ChargeCount
import EffectBroker.ContractSpecs
import EffectBroker.Chronology
import EffectBroker.ReservedEffects
import EffectBroker.SqliteSystem
import EffectBroker.AttemptPayload
import EffectBroker.Recovery
import EffectBroker.DurableLedger
import EffectBroker.StrandedEffects
import EffectBroker.Transactions
import EffectBroker.PostgresTables
import EffectBroker.PostgresStore
import EffectBroker.PostgresBook
import EffectBroker.PostgresCalls
import EffectBroker.PostgresTransactions
import EffectBroker.PostgresClaims
import EffectBroker.PostgresReservations
import EffectBroker.PostgresQueries
import EffectBroker.PostgresRuns
import EffectBroker.PostgresGuarantees
import EffectBroker.PostgresRecords
import EffectBroker.PostgresAlone
import EffectBroker.DurableTarget
import EffectBroker.DurableCharges
import EffectBroker.Fronts
import EffectBroker.HttpApi
import EffectBroker.TenantProtocol
import EffectBroker.HttpRuns
import EffectBroker.Budgets
import EffectBroker.CallBudgets
import EffectBroker.HttpReceipts
import EffectBroker.HttpStatuses
import EffectBroker.LoadedContracts
