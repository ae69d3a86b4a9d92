import EffectBroker.Models
import EffectBroker.OrderedDict

/-!
# Metrics

The counters and gauges that the broker's procedures update, and the bookkeeping of
unknown outcomes behind the gauge.
-/
namespace EffectBroker
open Python

/-- The metric samples, by label, and the observed unknown effects. -/
structure Metrics where
  effectsTotal : Dict Str Nat := .empty
  outcomeUnknownEffects : Dict (Str × Str) Nat := .empty
  dispatchAttemptsTotal : Dict Str Nat := .empty
  reconciliationOutcomesTotal : Dict Str Nat := .empty
  fencedStaleWritesTotal : Nat := 0
  payloadConflictsTotal : Nat := 0
  idempotencyRetentionRemaining : Timedelta := .zero
  unknownByEffectId : Dict Str (Str × Str × Datetime) := .empty

/-- `counter.labels(label).inc()`. -/
def inc (counter : Dict Str Nat) (label : Str) : Dict Str Nat :=
  counter.set label ((counter.get? label).getD 0 + 1)

/-- `_unknown_key`. -/
def unknownKey (effect : EffectRecord) : Str × Str × Datetime :=
  (effect.contract.name, effect.contract.safety.value, effect.createdAt)

namespace Metrics

/-- The label pair of an unknown key. -/
def labelsOf (key : Str × Str × Datetime) : Str × Str := (key.1, key.2.1)

/-- `_track_unknown`. -/
def trackUnknown (m : Metrics) (before after : EffectRecord) : Metrics :=
  let unknown :=
    if after.status = .outcomeUnknown then
      m.unknownByEffectId.set after.effectId (unknownKey after)
    else if before.status = .outcomeUnknown then m.unknownByEffectId.erase before.effectId
    else m.unknownByEffectId
  let labels := labelsOf (unknownKey before) :: labelsOf (unknownKey after) ::
    unknown.values.map labelsOf
  { m with
    unknownByEffectId := unknown
    outcomeUnknownEffects := labels.foldl (fun gauge label =>
      gauge.set label (unknown.values.filter (fun key => labelsOf key = label)).length)
      m.outcomeUnknownEffects }

def recordSubmit (m : Metrics) (reservation : Reservation) : Metrics :=
  { m with
    effectsTotal := inc m.effectsTotal
      (if reservation.created then str "submitted" else str "deduplicated") }

def recordConflict (m : Metrics) : Metrics :=
  { m with
    effectsTotal := inc m.effectsTotal (str "conflicted")
    payloadConflictsTotal := m.payloadConflictsTotal + 1 }

def recordTransition (m : Metrics) (before after : EffectRecord) : Metrics :=
  if before.status = after.status then m
  else
    let m :=
      match after.status with
      | .succeeded => { m with effectsTotal := inc m.effectsTotal (str "succeeded") }
      | .failedFinal => { m with effectsTotal := inc m.effectsTotal (str "failed") }
      | .outcomeUnknown => { m with effectsTotal := inc m.effectsTotal (str "unknown") }
      | _ => m
    m.trackUnknown before after

def recordDispatchAttempt (m : Metrics) (effect : EffectRecord) : Metrics :=
  { m with dispatchAttemptsTotal := inc m.dispatchAttemptsTotal effect.request.tool }

def recordReconciliationOutcome (m : Metrics) (outcome : Str) : Metrics :=
  { m with reconciliationOutcomesTotal := inc m.reconciliationOutcomesTotal outcome }

def recordFencedStaleWrite (m : Metrics) : Metrics :=
  { m with fencedStaleWritesTotal := m.fencedStaleWritesTotal + 1 }

def recordRetentionRemaining (m : Metrics) (remaining : Timedelta) : Metrics :=
  { m with idempotencyRetentionRemaining := remaining }

end Metrics

/-- One call of a `record_*` function. -/
inductive Metric where
  | submit (reservation : Reservation)
  | conflict
  | transition (before after : EffectRecord)
  | dispatchAttempt (effect : EffectRecord)
  | reconciliationOutcome (outcome : Str)
  | fencedStaleWrite
  | retentionRemaining (remaining : Timedelta)

/-- What the call does to the samples. -/
def Metrics.record (m : Metrics) : Metric → Metrics
  | .submit reservation => m.recordSubmit reservation
  | .conflict => m.recordConflict
  | .transition before after => m.recordTransition before after
  | .dispatchAttempt effect => m.recordDispatchAttempt effect
  | .reconciliationOutcome outcome => m.recordReconciliationOutcome outcome
  | .fencedStaleWrite => m.recordFencedStaleWrite
  | .retentionRemaining remaining => m.recordRetentionRemaining remaining

end EffectBroker
