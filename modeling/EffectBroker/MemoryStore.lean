import EffectBroker.Canonical
import EffectBroker.OrderedDict
import EffectBroker.StateMachine

/-!
# The in-memory store

`InMemoryStore`, operation by operation.  Each operation runs under the store's
lock, so it is one function from the store to its result and the store it leaves;
an operation that raises leaves what it had already written.  `now` is what
`datetime.now(UTC)` reads inside the operation.
-/
namespace EffectBroker
open Python

/-- The kinds of event the store appends. -/
inductive EventType where
  | reserved
  | claimed
  | attemptStarted
  | transition
deriving DecidableEq

/-- A compact append-only fact. -/
structure MemoryEvent where
  effectId : Str
  sequence : Nat
  eventType : EventType
  version : Nat
  at_ : Datetime
  data : Items

/-- A claim on an effect, until it expires. -/
structure Lease where
  workerId : Str
  expiresAt : Datetime
deriving DecidableEq

/-- An attempt row. -/
structure Attempt where
  attemptId : Str
  effectId : Str
  ordinal : Nat
  workerId : Str
  version : Nat
  startedAt : Datetime
deriving DecidableEq

/-- The store's tables. -/
structure InMemoryStore where
  hashes : Hashes
  tenantKeyProvider : TenantKeyProvider
  records : Dict Str EffectRecord
  identity : Dict (Str × Str) Str
  leases : Dict Str Lease
  attempts : Dict Str (List Attempt)
  events : Dict Str (List MemoryEvent)
  nextEffectId : Nat

/-- `f"eff_{n:06d}"`. -/
def effectIdOf (n : Nat) : Str := str "eff_" ++ zeroPadded 6 n

theorem effectIdOf_injective : Function.Injective effectIdOf := fun _ _ h =>
  zeroPadded_injective 6 (List.append_cancel_left h)

/-- `f"{effect_id}-attempt-{ordinal}"`. -/
def attemptIdOf (effectId : Str) (ordinal : Nat) : Str :=
  effectId ++ str "-attempt-" ++ decimal ordinal

theorem rsplitOnce_attemptIdOf (effectId : Str) (ordinal : Nat) :
    rsplitOnce (CodePoint.ofChar '-') (attemptIdOf effectId ordinal) =
      [effectId ++ str "-attempt", decimal ordinal] := by
  have happ : attemptIdOf effectId ordinal =
      (effectId ++ str "-attempt") ++ CodePoint.ofChar '-' :: decimal ordinal := by
    show effectId ++ str "-attempt-" ++ decimal ordinal = _
    rw [show str "-attempt-" = str "-attempt" ++ [CodePoint.ofChar '-'] from by decide]
    simp
  rw [happ]
  exact rsplitOnce_append (not_mem_decimal (by decide) ordinal) _

/-- An attempt id determines its effect and its ordinal. -/
theorem attemptIdOf_inj {e e' : Str} {n n' : Nat} (h : attemptIdOf e n = attemptIdOf e' n') :
    e = e' ∧ n = n' := by
  have hs := rsplitOnce_attemptIdOf e n
  rw [h, rsplitOnce_attemptIdOf] at hs
  injection hs with h1 h2
  injection h2 with h2 _
  exact ⟨(List.append_cancel_right h1).symm, (decimal_injective h2).symm⟩

/-- The record after a claim at `now`. -/
def claimedRecord (record : EffectRecord) (now : Datetime) : EffectRecord :=
  { record with version := record.version + 1, updatedAt := now }

/-- The record after a transition at `now`. -/
def movedRecord (record : EffectRecord) (target : EffectStatus) (now : Datetime) : EffectRecord :=
  { record with status := target, version := record.version + 1, updatedAt := now }

namespace InMemoryStore

/-- An empty store. -/
def initial (hashes : Hashes) (tenantKeyProvider : TenantKeyProvider) : InMemoryStore :=
  ⟨hashes, tenantKeyProvider, .empty, .empty, .empty, .empty, .empty, 1⟩

/-- The event stream of an effect. -/
def eventsOf (s : InMemoryStore) (effectId : Str) : List MemoryEvent :=
  (s.events.get? effectId).getD []

/-- The attempt rows of an effect. -/
def attemptsOf (s : InMemoryStore) (effectId : Str) : List Attempt :=
  (s.attempts.get? effectId).getD []

/-- `_append_event_locked`. -/
def appendEvent (s : InMemoryStore) (effectId : Str) (eventType : EventType) (version : Nat)
    (data : Items) (at_ : Datetime) : InMemoryStore :=
  let events := s.eventsOf effectId
  { s with
    events := s.events.set effectId
      (events ++ [⟨effectId, events.length + 1, eventType, version, at_, data⟩]) }

/-- `_record_for_update_locked`. -/
def recordForUpdate (s : InMemoryStore) (effectId : Str) (expectedVersion : Int) :
    Except Exc EffectRecord :=
  match s.records.get? effectId with
  | none => .error (.unknownEffect effectId)
  | some record =>
    if (record.version : Int) ≠ expectedVersion then
      .error (.versionConflict (effectId ++ str " expected version " ++ decimalInt expectedVersion ++
        str ", found " ++ decimal record.version))
    else .ok record

/-- Add a new effect to the ledger, with its identity, its empty attempt list and
its `reserved` event. -/
def insertEffect (s : InMemoryStore) (record : EffectRecord) : InMemoryStore :=
  appendEvent
    { s with
      identity := s.identity.set (record.tenantId, record.request.operationKey) record.effectId
      records := s.records.set record.effectId record
      attempts := s.attempts.set record.effectId []
      events := s.events.set record.effectId [] }
    record.effectId .reserved record.version [(text "status", .str record.status.value)]
    record.createdAt

/-- Reserve an effect: a new one, a replay, or a conflict. -/
def reserve (s : InMemoryStore) (now : Datetime) (tenantId : Str) (request : EffectRequest)
    (contract : EffectContract) : Except Exc Reservation × InMemoryStore :=
  match requestHash s.hashes request.tool request.arguments contract.name contract.version with
  | .error exc => (.error exc, s)
  | .ok digest =>
    match s.identity.get? (tenantId, request.operationKey) with
    | some existingId =>
      match s.records.get? existingId with
      | none => (.error (.other (str "KeyError") existingId), s)
      | some existing =>
        if existing.requestHash ≠ digest then
          (.error (.payloadConflict request.operationKey existing.requestHash digest), s)
        else (.ok ⟨existing, false, true⟩, s)
    | none =>
      let effectId := effectIdOf s.nextEffectId
      -- the counter has moved even if deriving the key raises
      let s := { s with nextEffectId := s.nextEffectId + 1 }
      match (do
        let tenantKey ← s.tenantKeyProvider tenantId
        downstreamKey s.hashes tenantKey tenantId request.operationKey) with
      | .error exc => (.error exc, s)
      | .ok key =>
        let record : EffectRecord :=
          { effectId, tenantId, request, requestHash := digest, downstreamKey := key, contract,
            status := .prepared, version := 0, createdAt := now, updatedAt := now }
        (.ok ⟨record, true, false⟩, s.insertEffect record)

/-- Whether a lease still excludes other workers at `now`. -/
def leaseActive (s : InMemoryStore) (effectId : Str) (now : Datetime) : Bool :=
  match s.leases.get? effectId with
  | some lease => now < lease.expiresAt
  | none => false

/-- The loop of `claim_due` over the remaining items of the ledger. -/
def claimLoop (workerId : Str) (now : Datetime) (leaseFor : Timedelta) (limit : Int) :
    List (Str × EffectRecord) → InMemoryStore → List EffectRecord →
      Except Exc (List EffectRecord) × InMemoryStore
  | [], s, claimed => (.ok claimed, s)
  | (effectId, record) :: rest, s, claimed =>
    if (claimed.length : Int) ≥ limit then (.ok claimed, s)
    else if !record.status.isClaimable then claimLoop workerId now leaseFor limit rest s claimed
    else if s.leaseActive effectId now then claimLoop workerId now leaseFor limit rest s claimed
    else
      let updated := claimedRecord record now
      let s := { s with records := s.records.set effectId updated }
      match now.add leaseFor with
      -- the new version is already written when `now + lease_for` raises
      | none => (.error .overflowError, s)
      | some expiresAt =>
        let s := { s with leases := s.leases.set effectId ⟨workerId, expiresAt⟩ }
        let s := s.appendEvent effectId .claimed updated.version
          [(text "worker_id", .str workerId),
            (text "lease_expires_at", .str expiresAt.isoformat)] now
        claimLoop workerId now leaseFor limit rest s (claimed ++ [updated])

/-- Claim up to `limit` due effects for a worker. -/
def claimDue (s : InMemoryStore) (workerId : Str) (now : Datetime) (leaseFor : Timedelta)
    (limit : Int) : Except Exc (List EffectRecord) × InMemoryStore :=
  if limit ≤ 0 then (.ok [], s) else claimLoop workerId now leaseFor limit s.records.items s []

/-- Write an attempt row. -/
def startAttempt (s : InMemoryStore) (now : Datetime) (effectId : Str) (expectedVersion : Int)
    (workerId : Str) : Except Exc Str × InMemoryStore :=
  match s.recordForUpdate effectId expectedVersion with
  | .error exc => (.error exc, s)
  | .ok record =>
    let attempts := s.attemptsOf effectId
    let ordinal := attempts.length + 1
    let attemptId := attemptIdOf effectId ordinal
    let attempt : Attempt := ⟨attemptId, effectId, ordinal, workerId, record.version, now⟩
    let s := { s with attempts := s.attempts.set effectId (attempts ++ [attempt]) }
    (.ok attemptId, s.appendEvent effectId .attemptStarted record.version
      [(text "attempt_id", .str attemptId), (text "ordinal", .int ordinal),
        (text "worker_id", .str workerId)] now)

/-- The data of a `transition` event. -/
def transitionData (source target : EffectStatus) (data : Items) : Items :=
  [(text "from", .str source.value), (text "to", .str target.value), (text "metadata", .dict data)]

/-- Move an effect along an edge of the graph, if its version is the expected one. -/
def transition (s : InMemoryStore) (now : Datetime) (effectId : Str) (expectedVersion : Int)
    (target : EffectStatus) (data : Items) : Except Exc EffectRecord × InMemoryStore :=
  match s.recordForUpdate effectId expectedVersion with
  | .error exc => (.error exc, s)
  | .ok record =>
    match assertTransition record.status target with
    | .error exc => (.error exc, s)
    | .ok () =>
      let updated := movedRecord record target now
      let s := { s with records := s.records.set effectId updated }
      let s := if target.isClaimable then s else { s with leases := s.leases.erase effectId }
      (.ok updated, s.appendEvent effectId .transition updated.version
        (transitionData record.status target data) now)

/-- The effect, for its own tenant. -/
def get (s : InMemoryStore) (tenantId effectId : Str) : Option EffectRecord :=
  match s.records.get? effectId with
  | some record => if record.tenantId = tenantId then some record else none
  | none => none

/-- The `metadata` of the last transition to `succeeded`, with its time. -/
def lastSuccess (events : List MemoryEvent) : Option (Items × Datetime) :=
  (events.reverse.find? (fun event => event.eventType == .transition &&
    ((event.data.get? (str "to")).any (Value.isStr EffectStatus.succeeded.value)))).map
    fun event => (((event.data.get? (str "metadata")).bind Value.items?).getD [], event.at_)

/-- The receipt of a successful effect, for its own tenant. -/
def receipt (s : InMemoryStore) (tenantId effectId : Str) : Option Items :=
  match s.get tenantId effectId with
  | none => none
  | some record =>
    (lastSuccess (s.eventsOf effectId)).map fun (metadata, at_) =>
      [(text "effect_id", .str effectId), (text "status", .str EffectStatus.succeeded.value),
        (text "contract", .str record.contract.name),
        (text "contract_version", .str record.contract.version),
        (text "downstream_key", .str record.downstreamKey), (text "metadata", .dict metadata),
        (text "recorded_at", .str at_.isoformat)]

end InMemoryStore
end EffectBroker
