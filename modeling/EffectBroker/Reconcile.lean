import EffectBroker.Worker

/-!
# Reconciliation

`reconcile_once`: redispatch, probe, or hand over to an operator, by safety class.
-/
namespace EffectBroker
open Python Concurrency

/-- `record_retention_remaining`. -/
def recordRetentionRemaining (effect : EffectRecord) : Program Unit :=
  match effect.contract.keyRetention with
  | none => Program.record (.retentionRemaining .zero)
  | some retention => do
    let horizon ← Program.addTime effect.createdAt retention
    let now ← Program.clock
    Program.record (.retentionRemaining (horizon.sub now))

/-- `_key_retention_valid`. -/
def keyRetentionValid (effect : EffectRecord) : Program Bool :=
  match effect.contract.keyRetention with
  | none => return false
  | some retention => do
    let now ← Program.clock
    let horizon ← Program.addTime effect.createdAt retention
    return decide (now ≤ horizon)

/-- `record_reconciliation_outcome`. -/
def recordOutcome (outcome : Str) : Program Unit := Program.record (.reconciliationOutcome outcome)

/-- What follows a redispatch that returned. -/
def recordRedispatch (dispatching : EffectRecord) (attemptId : Str) (result : DispatchReturn) :
    Program EffectRecord := do
  if ← Coroutine.ofExcept result.committed then
    recordOutcome (str "redispatch_committed")
    transitionCommitted dispatching attemptId result
  else
    recordOutcome (str "redispatch_unknown")
    transitionAndRecord dispatching .outcomeUnknown
      [(text "attempt_id", .str attemptId), (text "reason", text "not_confirmed")]

/-- What follows a redispatch that raised. -/
def recordRedispatchFailure (dispatching : EffectRecord) (attemptId : Str) (exc : Exc) :
    Program EffectRecord := do
  if exc.isAdapterError then
    recordOutcome (str "proven_non_commit")
    transitionAndRecord dispatching .retryable
      [(text "attempt_id", .str attemptId), (text "error", .str exc.className),
        (text "reason", text "proven_non_commit_after_redispatch")]
  else
    recordOutcome (str "redispatch_unknown")
    transitionAndRecord dispatching .outcomeUnknown
      [(text "attempt_id", .str attemptId), (text "error", .str exc.className),
        (text "reason", text "ambiguous_redispatch")]

/-- The branch of `_reconcile_once` for a class that redispatches with the same key. -/
def redispatch (effect : EffectRecord) : Program EffectRecord := do
  recordRetentionRemaining effect
  if ← keyRetentionValid effect then
    let dispatching ← transitionAndRecord effect .dispatching
      [(text "reason", text "idempotent_redispatch")]
    let attemptId ← Program.startAttempt dispatching.effectId dispatching.version
      (str "reconciler")
    Program.record (.dispatchAttempt dispatching)
    -- outside the `try` of the source, which holds the call alone
    Program.adapterFor dispatching
    let answer ← Coroutine.request (Request.dispatch dispatching attemptId)
    match (answer : Except Exc DispatchReturn) with
    | .ok result => recordRedispatch dispatching attemptId result
    | .error exc => recordRedispatchFailure dispatching attemptId exc
  else
    recordOutcome (str "retention_expired")
    transitionAndRecord effect .manualReview
      [(text "reason", text "idempotency_key_retention_expired")]

/-- What follows a probe that returned. -/
def recordProbe (reconciling : EffectRecord) (probe : ProbeReturn) : Program EffectRecord := do
  let status ← Coroutine.ofExcept probe.status
  recordOutcome status.label
  match status with
  | .known .committed =>
    let externalId ← Coroutine.ofExcept probe.externalId
    let output ← Coroutine.ofExcept probe.output
    let evidence ← Coroutine.ofExcept probe.evidence
    transitionAndRecord reconciling .succeeded
      [(text "external_id", externalId), (text "output", .dict (output.getD [])),
        (text "evidence", .dict evidence)]
  | .known .notCommitted =>
    let evidence ← Coroutine.ofExcept probe.evidence
    transitionAndRecord reconciling .prepared [(text "evidence", .dict evidence)]
  | _ =>
    let evidence ← Coroutine.ofExcept probe.evidence
    transitionAndRecord reconciling .manualReview
      [(text "evidence", .dict evidence), (text "reason", text "probe_unknown")]

/-- The branch of `_reconcile_once` for a class that probes. -/
def probeTarget (effect : EffectRecord) : Program EffectRecord := do
  let reconciling ← transitionAndRecord effect .reconciling
    [(text "reason", text "authoritative_probe")]
  Program.adapterFor reconciling
  let probe ← Program.probe reconciling
  recordProbe reconciling probe

/-- The branch of `_reconcile_once` for the class that only an operator resolves. -/
def handOver (effect : EffectRecord) : Program EffectRecord := do
  recordOutcome (str "unsafe_unknown")
  transitionAndRecord effect .manualReview [(text "reason", text "unsafe_unknown")]

/-- Resolve one effect according to its safety class. -/
def reconcileOnce (effect : EffectRecord) : Program EffectRecord :=
  match routeUnknown effect.contract.safety with
  | .dispatching => redispatch effect
  | .reconciling => probeTarget effect
  | _ => handOver effect

end EffectBroker
