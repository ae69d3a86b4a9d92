import Mathlib.Data.List.Sort
import EffectBroker.Interleaving
import EffectBroker.MemoryStore

/-!
# Calls of a store

The interface of `store/base.py` with the inspection methods that all stores share, and
sequential runs of a store: a store serves one call after another, whoever calls.
-/
namespace EffectBroker
open Python Concurrency

/-- A call of a store. -/
inductive StoreCall where
  | reserve (tenantId : Str) (request : EffectRequest) (contract : EffectContract)
  | claimDue (workerId : Str) (now : Datetime) (leaseFor : Timedelta) (limit : Int)
  | startAttempt (effectId : Str) (expectedVersion : Int) (workerId : Str)
  | transition (effectId : Str) (expectedVersion : Int) (target : EffectStatus) (data : Items)
  | get (tenantId effectId : Str)
  | list (tenantId : Str) (status : Option EffectStatus) (limit offset : Int)
  | receipt (tenantId effectId : Str)
  | events (effectId : Str)
  | attemptCount (effectId : Str)
  | count

/-- An event as `events` returns it. -/
structure StoredEvent where
  effectId : Str
  sequence : Nat
  eventType : Str
  version : Nat
  at_ : Datetime
  data : Items

/-- What a call returns. -/
inductive StoreValue where
  | reservation (reservation : Reservation)
  | effects (effects : List EffectRecord)
  | attemptId (attemptId : Str)
  | effect (effect : EffectRecord)
  | found (effect : Option EffectRecord)
  | receipt (receipt : Option Items)
  | events (events : List StoredEvent)
  | number (n : Nat)

/-- The records that a value shows. -/
def StoreValue.records : StoreValue → List EffectRecord
  | .reservation r => [r.effect]
  | .effects records => records
  | .effect record => [record]
  | .found record => record.toList
  | _ => []

/-- A call, with the wall clock and the `uuid4().hex` that it reads. -/
structure TimedCall where
  call : StoreCall
  now : Datetime
  uuid : Str

/-- The effects that a reply hands out, with their versions. -/
def handedOut (reply : Except Exc StoreValue) : Option (List (Str × Nat)) :=
  match reply with
  | .ok (.effects records) => some (records.map fun record => (record.effectId, record.version))
  | _ => none

/-- A call that has been served: its reply, and the store it left. -/
structure Served (σ : Type) where
  call : TimedCall
  reply : Except Exc StoreValue
  store : σ

/-- A store serves calls one after another; they are collected newest first. -/
inductive StoreRun {σ : Type} (serve : TimedCall → σ → Except Exc StoreValue × σ) (init : σ) :
    List (Served σ) → σ → Prop
  | start : StoreRun serve init [] init
  | call {log s} (c : TimedCall) : StoreRun serve init log s →
      StoreRun serve init (⟨c, (serve c s).1, (serve c s).2⟩ :: log) (serve c s).2

section
variable {σ : Type} {serve : TimedCall → σ → Except Exc StoreValue × σ} {init s : σ}
  {log : List (Served σ)}

/-- The store that a log has led to. -/
def storeAfter (init : σ) : List (Served σ) → σ
  | [] => init
  | x :: _ => x.store

/-- `P` holds of each call of a log, and of the store that served it. -/
def EachCall (P : σ → TimedCall → Prop) (init : σ) : List (Served σ) → Prop :=
  Throughout fun older x => P (storeAfter init older) x.call

theorem StoreRun.storeAfter (h : StoreRun serve init log s) : storeAfter init log = s := by
  cases h <;> rfl

/-- The older part of a run is a run. -/
theorem StoreRun.older {newer : List (Served σ)} (h : StoreRun serve init (newer ++ log) s) :
    ∃ s', StoreRun serve init log s' := by
  induction newer generalizing s with
  | nil => exact ⟨s, h⟩
  | cons x newer ih =>
    cases h with
    | call c hrun => exact ih hrun

/-- What each call keeps, a run keeps. -/
theorem StoreRun.invariant {I : σ → Prop} {P : σ → TimedCall → Prop}
    (h : StoreRun serve init log s) (hinit : I init) (hcalls : EachCall P init log)
    (hstep : ∀ s c, I s → P s c → I (serve c s).2) : I s := by
  induction h with
  | start => exact hinit
  | @call log s c hrun ih =>
    obtain ⟨hcall, hcalls⟩ := hcalls
    rw [hrun.storeAfter] at hcall
    exact hstep s c (ih hcalls) hcall

/-- The run of calls, which come newest first as well. -/
def servedCalls (serve : TimedCall → σ → Except Exc StoreValue × σ) (init : σ) :
    List TimedCall → List (Served σ)
  | [] => []
  | c :: older =>
    let log := servedCalls serve init older
    let reply := serve c (storeAfter init log)
    ⟨c, reply.1, reply.2⟩ :: log

/-- The store that calls lead to. -/
def storeOf (serve : TimedCall → σ → Except Exc StoreValue × σ) (init : σ) (calls : List TimedCall) : σ :=
  storeAfter init (servedCalls serve init calls)

theorem storeRun_servedCalls (calls : List TimedCall) :
    StoreRun serve init (servedCalls serve init calls) (storeOf serve init calls) := by
  induction calls with
  | nil => exact .start
  | cons c older ih => exact .call c ih

/-- What each of the calls satisfies in the store that serves it. -/
theorem eachCall_cons {P : σ → TimedCall → Prop} {c : TimedCall} {older : List TimedCall}
    (hcall : P (storeOf serve init older) c) (hcalls : EachCall P init (servedCalls serve init older)) :
    EachCall P init (servedCalls serve init (c :: older)) :=
  ⟨hcall, hcalls⟩

end

/-- The record that a durable store builds for a new effect. -/
def newRecord (hashes : Hashes) (tenantKeyProvider : TenantKeyProvider) (now : Datetime) (uuid : Str)
    (tenantId : Str) (request : EffectRequest) (contract : EffectContract) :
    Except Exc EffectRecord := do
  let digest ← requestHash hashes request.tool request.arguments contract.name contract.version
  let tenantKey ← tenantKeyProvider tenantId
  let key ← downstreamKey hashes tenantKey tenantId request.operationKey
  return { effectId := str "eff_" ++ uuid, tenantId, request, requestHash := digest,
           downstreamKey := key, contract, status := .prepared, version := 0, createdAt := now,
           updatedAt := now }

/-- What a new record consists of. -/
theorem newRecord_ok {hashes : Hashes} {tenantKeyProvider : TenantKeyProvider} {now : Datetime}
    {uuid tenantId : Str} {request : EffectRequest} {contract : EffectContract} {record : EffectRecord}
    (h : newRecord hashes tenantKeyProvider now uuid tenantId request contract = .ok record) :
    ∃ digest tenantKey key,
      requestHash hashes request.tool request.arguments contract.name contract.version = .ok digest ∧
      tenantKeyProvider tenantId = .ok tenantKey ∧
      downstreamKey hashes tenantKey tenantId request.operationKey = .ok key ∧
      record = { effectId := str "eff_" ++ uuid, tenantId, request, requestHash := digest,
                 downstreamKey := key, contract, status := .prepared, version := 0,
                 createdAt := now, updatedAt := now } := by
  obtain ⟨digest, hdigest, h⟩ := bind_eq_ok.mp h
  obtain ⟨tenantKey, htenantKey, h⟩ := bind_eq_ok.mp h
  obtain ⟨key, hkey, h⟩ := bind_eq_ok.mp h
  exact ⟨digest, tenantKey, key, hdigest, htenantKey, hkey, (Except.ok.inj h).symm⟩

/-- A unique constraint of a table is violated. -/
def integrityError : Exc := .other (str "IntegrityError") (str "UNIQUE constraint failed")

namespace EventType

/-- The text of an event type. -/
def value : EventType → Str
  | .reserved => str "reserved"
  | .claimed => str "claimed"
  | .attemptStarted => str "attempt_started"
  | .transition => str "transition"

/-- The event type of a text. -/
def ofValue? (s : Str) : Option EventType :=
  [EventType.reserved, .claimed, .attemptStarted, .transition].find? (fun t => t.value == s)

theorem ofValue?_value (t : EventType) : ofValue? t.value = some t := by
  cases t <;> decide

theorem value_injective : Function.Injective value := by
  intro a b h
  have := ofValue?_value a
  rw [h, ofValue?_value] at this
  exact (Option.some.inj this).symm

end EventType

/-- An event of the in-memory store, with its type as a text. -/
def MemoryEvent.stored (event : MemoryEvent) : StoredEvent :=
  ⟨event.effectId, event.sequence, event.eventType.value, event.version, event.at_, event.data⟩

/-- `l[start:stop]`. -/
def slice {α : Type} (l : List α) (start stop : Int) : List α :=
  let clamp (i : Int) : Nat := (if i < 0 then i + l.length else i).toNat
  (l.take (clamp stop)).drop (clamp start)

/-- The order of `list`: by creation time, then by id. -/
def listedBefore (a b : EffectRecord) : Prop :=
  a.createdAt < b.createdAt ∨ a.createdAt = b.createdAt ∧ a.effectId ≤ b.effectId

instance : DecidableRel listedBefore := fun a b =>
  inferInstanceAs (Decidable (a.createdAt < b.createdAt ∨
    a.createdAt = b.createdAt ∧ a.effectId ≤ b.effectId))

namespace InMemoryStore

/-- One page of the effects of a tenant. -/
def list (s : InMemoryStore) (tenantId : Str) (status : Option EffectStatus) (limit offset : Int) :
    List EffectRecord :=
  let records := s.records.values.filter fun record =>
    record.tenantId = tenantId && status.all (fun status => record.status = status)
  slice (records.insertionSort listedBefore) offset (offset + limit)

/-- Serve a call. -/
def serve (c : TimedCall) (s : InMemoryStore) : Except Exc StoreValue × InMemoryStore :=
  match c.call with
  | .reserve tenantId request contract =>
    let (reply, s) := s.reserve c.now tenantId request contract
    (reply.map .reservation, s)
  | .claimDue workerId now leaseFor limit =>
    let (reply, s) := s.claimDue workerId now leaseFor limit
    (reply.map .effects, s)
  | .startAttempt effectId expectedVersion workerId =>
    let (reply, s) := s.startAttempt c.now effectId expectedVersion workerId
    (reply.map .attemptId, s)
  | .transition effectId expectedVersion target data =>
    let (reply, s) := s.transition c.now effectId expectedVersion target data
    (reply.map .effect, s)
  | .get tenantId effectId => (.ok (.found (s.get tenantId effectId)), s)
  | .list tenantId status limit offset => (.ok (.effects (s.list tenantId status limit offset)), s)
  | .receipt tenantId effectId => (.ok (.receipt (s.receipt tenantId effectId)), s)
  | .events effectId => (.ok (.events ((s.eventsOf effectId).map MemoryEvent.stored)), s)
  | .attemptCount effectId => (.ok (.number (s.attemptsOf effectId).length), s)
  | .count => (.ok (.number s.records.size), s)

end InMemoryStore
end EffectBroker
