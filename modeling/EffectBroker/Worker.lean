import EffectBroker.Requests
import EffectBroker.StateMachine

/-!
# The worker loop

`dispatch_once`: claim due work, and for each claimed effect record `dispatching` and
an attempt row before adapter I/O, then persist the outcome there is evidence for.
-/
namespace EffectBroker
open Python Concurrency

/-- `_transition_and_record`, the same in the worker and in the reconciler. -/
def transitionAndRecord (before : EffectRecord) (target : EffectStatus) (data : Items) :
    Program EffectRecord := do
  let after ← tryCatch (Program.transition before.effectId before.version target data) fun exc =>
    if exc.isVersionConflict then do
      Program.record .fencedStaleWrite
      throw exc
    else throw exc
  Program.record (.transition before after)
  return after

/-- `_transition_committed`, the same in the worker and in the reconciler. -/
def transitionCommitted (effect : EffectRecord) (attemptId : Str) (result : DispatchReturn) :
    Program EffectRecord := do
  let externalId ← Coroutine.ofExcept result.externalId
  let output ← Coroutine.ofExcept result.output
  transitionAndRecord effect .succeeded
    [(text "attempt_id", .str attemptId), (text "external_id", externalId),
      (text "output", .dict output)]

/-- `_attempt_ordinal`. -/
def attemptOrdinal (attemptId : Str) : Int :=
  match rsplitOnce (CodePoint.ofChar '-') attemptId with
  | [_, ordinal] => (int ordinal).getD 1
  | _ => 1

/-- Where a proven non-commit of the attempt goes. -/
def nonCommitTarget (effect : EffectRecord) (attemptId : Str) : EffectStatus :=
  if attemptOrdinal attemptId < effect.contract.retryLimit then .retryable else .failedFinal

/-- `_transition_proven_non_commit`. -/
def transitionProvenNonCommit (effect : EffectRecord) (attemptId : Str) (exc : Exc) :
    Program EffectRecord :=
  transitionAndRecord effect (nonCommitTarget effect attemptId)
    [(text "attempt_id", .str attemptId), (text "error", .str exc.className),
      (text "reason", text "proven_non_commit")]

/-- The `try` block of the loop: the call, and the transition that records its result. -/
def callAndRecord (dispatching : EffectRecord) (attemptId : Str) : Program EffectRecord := do
  Program.adapterFor dispatching
  let result ← Program.dispatch dispatching attemptId
  if ← Coroutine.ofExcept result.committed then
    transitionCommitted dispatching attemptId result
  else
    transitionAndRecord dispatching .outcomeUnknown
      [(text "attempt_id", .str attemptId), (text "reason", text "not_confirmed")]

/-- The two handlers of that block, which also see what its transition raises. -/
def recordFailure (dispatching : EffectRecord) (attemptId : Str) (exc : Exc) :
    Program EffectRecord :=
  if exc.isAdapterError then transitionProvenNonCommit dispatching attemptId exc
  else
    transitionAndRecord dispatching .outcomeUnknown
      [(text "attempt_id", .str attemptId), (text "error", .str exc.className),
        (text "reason", text "ambiguous_dispatch")]

/-- The loop body, for one claimed effect. -/
def dispatchEffect (workerId : Str) (effect : EffectRecord) : Program EffectRecord := do
  let dispatching ← transitionAndRecord effect .dispatching [(text "worker_id", .str workerId)]
  let attemptId ← Program.startAttempt dispatching.effectId dispatching.version workerId
  Program.record (.dispatchAttempt dispatching)
  tryCatch (callAndRecord dispatching attemptId) (recordFailure dispatching attemptId)

/-- The loop over the claimed effects. -/
def dispatchAll (workerId : Str) : List EffectRecord → Program (List EffectRecord)
  | [] => return []
  | effect :: claimed => do
    let result ← dispatchEffect workerId effect
    let results ← dispatchAll workerId claimed
    return result :: results

/-- Claim due work and dispatch each effect at most once. -/
def dispatchOnce (workerId : Str) (now : Datetime) (leaseFor : Timedelta) (limit : Int) :
    Program (List EffectRecord) := do
  let claimed ← Program.claimDue workerId now leaseFor limit
  dispatchAll workerId claimed

end EffectBroker
