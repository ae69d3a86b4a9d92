import EffectBroker.Contracts
import EffectBroker.Reconcile

/-!
# The public service

`EffectBroker` over a store and the contract registry, and the procedures that
callers of the broker and its workers run.
-/
namespace EffectBroker
open Python Concurrency

/-- The class `EffectBroker`: its contract registry, and whether it was given an
`adapter_for`. -/
structure Broker where
  contracts : ContractRegistry
  hasAdapterFor : Bool

namespace Broker

def submit (broker : Broker) (tenantId : Str) (request : EffectRequest) :
    Program Reservation := do
  let contract ← Coroutine.ofExcept (broker.contracts.get request.tool)
  let reservation ← tryCatch (Program.reserve tenantId request contract) fun exc =>
    match exc with
    | .payloadConflict .. => do
      Program.record .conflict
      throw exc
    | _ => throw exc
  Program.record (.submit reservation)
  return reservation

def get (tenantId effectId : Str) : Program EffectRecord := do
  match ← Program.get tenantId effectId with
  | none => throw (.unknownEffect effectId)
  | some effect => return effect

def reconcile (broker : Broker) (tenantId effectId : Str) : Program EffectRecord := do
  if broker.hasAdapterFor then
    let effect ← get tenantId effectId
    reconcileOnce effect
  else throw (.runtimeError (str "EffectBroker.reconcile requires adapter_for"))

/-- Cancel work only while dispatch is provably not in flight. -/
def cancel (tenantId effectId : Str) (expectedVersion : Int) (actor reason : Str) :
    Program EffectRecord := do
  let effect ← get tenantId effectId
  if (effect.version : Int) ≠ expectedVersion then
    throw (.versionConflict (str "effect " ++ effectId ++ str " is version " ++
      decimal effect.version ++ str ", not expected version " ++ decimalInt expectedVersion))
  else if !effect.status.isClaimable then throw (.invalidTransition effect.status .cancelled)
  else do
    let cancelled ← Program.transition effect.effectId expectedVersion .cancelled
      [(text "actor", .str actor), (text "reason", .str reason)]
    Program.record (.transition effect cancelled)
    return cancelled

/-- Where an operator may move an effect in review. -/
def isResolution : EffectStatus → Bool
  | .succeeded | .failedFinal | .compensated => true
  | _ => false

def resolve (tenantId effectId : Str) (resolution : EffectStatus) (evidence : Items) :
    Program EffectRecord := do
  let effect ← get tenantId effectId
  if effect.status ≠ .manualReview then throw (.invalidTransition effect.status resolution)
  else if !isResolution resolution then throw (.invalidTransition effect.status resolution)
  else
    Program.transition effect.effectId effect.version resolution
      [(text "evidence", .dict evidence), (text "actor", text "operator")]

end Broker

/-- A call of the broker, or of its worker loop. -/
inductive Procedure where
  | submit (broker : Broker) (tenantId : Str) (request : EffectRequest)
  | get (tenantId effectId : Str)
  | reconcile (broker : Broker) (tenantId effectId : Str)
  | cancel (tenantId effectId : Str) (expectedVersion : Int) (actor reason : Str)
  | resolve (tenantId effectId : Str) (resolution : EffectStatus) (evidence : Items)
  | dispatchOnce (workerId : Str) (now : Datetime) (leaseFor : Timedelta) (limit : Int)

/-- What a procedure returns. -/
inductive Reply where
  | reservation (reservation : Reservation)
  | effect (record : EffectRecord)
  | effects (records : List EffectRecord)

/-- The code of a procedure. -/
def Procedure.program : Procedure → Program Reply
  | submit broker tenantId request => do
    return .reservation (← broker.submit tenantId request)
  | get tenantId effectId => do return .effect (← Broker.get tenantId effectId)
  | reconcile broker tenantId effectId => do
    return .effect (← broker.reconcile tenantId effectId)
  | cancel tenantId effectId expectedVersion actor reason => do
    return .effect (← Broker.cancel tenantId effectId expectedVersion actor reason)
  | resolve tenantId effectId resolution evidence => do
    return .effect (← Broker.resolve tenantId effectId resolution evidence)
  | dispatchOnce workerId now leaseFor limit => do
    return .effects (← EffectBroker.dispatchOnce workerId now leaseFor limit)

end EffectBroker
