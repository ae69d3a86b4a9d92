import EffectBroker.System

/-!
# The protocol of a caller

What the broker's procedures do, without their code: which effect a caller holds,
how far it has come with it, and which requests that allows.  The procedures follow
this protocol, so whatever holds of its runs holds of theirs.
-/
namespace EffectBroker
open Python Concurrency

/-- Which procedure takes effects into `dispatching`. -/
inductive Route where
  | worker
  | redispatch
deriving DecidableEq

/-- The effect that a caller has taken into `dispatching` or `reconciling`, and how far
it has come with it. -/
inductive Hold where
  | free
  | entered (route : Route) (effect : EffectRecord)
  | attempted (route : Route) (effect : EffectRecord) (attemptId : Str)
  | built (route : Route) (effect : EffectRecord) (attemptId : Str) (answer : Except Exc Unit)
  | dispatched (route : Route) (effect : EffectRecord) (attemptId : Str)
      (answer : Except Exc DispatchReturn)
  | reconciling (effect : EffectRecord)
  | probeBuilt (effect : EffectRecord) (answer : Except Exc Unit)
  | probed (effect : EffectRecord) (answer : Except Exc ProbeReturn)

namespace Hold

/-- The record held. -/
def record? : Hold → Option EffectRecord
  | free => none
  | entered _ effect | attempted _ effect _ | built _ effect _ _ | dispatched _ effect _ _
  | reconciling effect | probeBuilt effect _ | probed effect _ => some effect

/-- The effect held. -/
def effectId? (h : Hold) : Option Str := h.record?.map EffectRecord.effectId

/-- What a caller holds after moving an effect. -/
def entering (route : Route) (after : EffectRecord) : Hold :=
  match after.status with
  | .dispatching => entered route after
  | .reconciling => reconciling after
  | _ => free

/-- The external call that a holder makes next. -/
def call? : Hold → Option Request
  | built _ effect attemptId (.ok ()) => some (.dispatch effect attemptId)
  | probeBuilt effect (.ok ()) => some (.probe effect)
  | _ => none

end Hold

/-- The route of a procedure. -/
def Procedure.route : Procedure → Route
  | dispatchOnce .. => .worker
  | _ => .redispatch

/-- A caller: its procedure, the records it has read, its last reading of the clock, and
what it holds. -/
structure CallerState where
  procedure : Procedure
  known : List EffectRecord := []
  clock : Option Datetime := none
  hold : Hold := .free

/-- Adapter code has raised `AdapterError`, in the call or where its result was read, so
that a worker takes the attempt for a proven non-commit. -/
inductive ProvesNonCommit : Except Exc DispatchReturn → Prop where
  | raised {exc} : exc.isAdapterError → ProvesNonCommit (.error exc)
  | read {result exc} : exc.isAdapterError →
      (result.committed = .error exc ∨ result.committed = .ok true ∧
        (result.externalId = .error exc ∨ result.output = .error exc)) →
      ProvesNonCommit (.ok result)

/-- Where a holder may take its effect, with which data. -/
inductive Settles : Hold → EffectStatus → Items → Prop where
  | committed {route effect attemptId result externalId output} :
      result.committed = .ok true → result.externalId = .ok externalId →
      result.output = .ok output →
      Settles (.dispatched route effect attemptId (.ok result)) .succeeded
        [(text "attempt_id", .str attemptId), (text "external_id", externalId),
          (text "output", .dict output)]
  | refused {effect attemptId exc data} : exc.isAdapterError →
      Settles (.built .worker effect attemptId (.error exc)) (nonCommitTarget effect attemptId) data
  | nonCommit {effect attemptId answer data} : ProvesNonCommit answer →
      Settles (.dispatched .worker effect attemptId answer) (nonCommitTarget effect attemptId) data
  /-- A redispatch goes back to `retryable` whatever the retry limit. -/
  | redispatchNonCommit {effect attemptId exc data} : exc.isAdapterError →
      Settles (.dispatched .redispatch effect attemptId (.error exc)) .retryable data
  | unbuilt {effect attemptId exc data} :
      Settles (.built .worker effect attemptId (.error exc)) .outcomeUnknown data
  | unknown {route effect attemptId answer data} :
      Settles (.dispatched route effect attemptId answer) .outcomeUnknown data
  | probeCommitted {effect probe externalId output evidence} :
      probe.status = .ok (.known .committed) → probe.externalId = .ok externalId →
      probe.output = .ok output → probe.evidence = .ok evidence →
      Settles (.probed effect (.ok probe)) .succeeded
        [(text "external_id", externalId), (text "output", .dict (output.getD [])),
          (text "evidence", .dict evidence)]
  | probeNotCommitted {effect probe data} : probe.status = .ok (.known .notCommitted) →
      Settles (.probed effect (.ok probe)) .prepared data
  | probeUnknown {effect probe data} :
      Settles (.probed effect (.ok probe)) .manualReview data

/-- The clock reading shows that the key of an idempotent effect is still retained. -/
def Retained (effect : EffectRecord) (clock : Option Datetime) : Prop :=
  ∃ retention horizon now, effect.contract.keyRetention = some retention ∧
    effect.createdAt.add retention = some horizon ∧ clock = some now ∧ now ≤ horizon

/-- Where a caller that holds nothing may take an effect it has read. -/
inductive Starts (procedure : Procedure) (clock : Option Datetime) (effect : EffectRecord) :
    EffectStatus → Items → Prop where
  | claimed {data} : procedure.route = .worker → effect.status.isClaimable →
      Starts procedure clock effect .dispatching data
  | redispatch {data} : procedure.route = .redispatch → effect.contract.safety = .idempotent →
      Retained effect clock → Starts procedure clock effect .dispatching data
  | reconcile {data} : routeUnknown effect.contract.safety = .reconciling →
      Starts procedure clock effect .reconciling data
  | review {data} : routeUnknown effect.contract.safety ≠ .reconciling →
      Starts procedure clock effect .manualReview data
  | cancel {tenantId expectedVersion actor reason} :
      procedure = .cancel tenantId effect.effectId expectedVersion actor reason →
      effect.status.isClaimable → Starts procedure clock effect .cancelled
        [(text "actor", .str actor), (text "reason", .str reason)]
  | resolve {tenantId target evidence} :
      procedure = .resolve tenantId effect.effectId target evidence → effect.status = .manualReview →
      Broker.isResolution target → Starts procedure clock effect target
        [(text "evidence", .dict evidence), (text "actor", text "operator")]

/-- What a caller may await. -/
inductive Allowed (l : CallerState) : Request → Prop where
  | reserve {tenantId request contract} : Allowed l (.reserve tenantId request contract)
  | claimDue {workerId now leaseFor limit} : Allowed l (.claimDue workerId now leaseFor limit)
  | get {tenantId effectId} : Allowed l (.get tenantId effectId)
  | clock : Allowed l .clock
  | record {metric} : Allowed l (.record metric)
  | start {effect target data} : l.hold = .free → effect ∈ l.known →
      Starts l.procedure l.clock effect target data →
      Allowed l (.transition effect.effectId effect.version target data)
  | attempt {route effect workerId} : l.hold = .entered route effect →
      Allowed l (.startAttempt effect.effectId effect.version workerId)
  | build {route effect attemptId} : l.hold = .attempted route effect attemptId →
      Allowed l (.adapterFor effect)
  | buildProbe {effect} : l.hold = .reconciling effect → Allowed l (.adapterFor effect)
  | call {r} : l.hold.call? = some r → Allowed l r
  | settle {effect target data} : l.hold.record? = some effect → Settles l.hold target data →
      Allowed l (.transition effect.effectId effect.version target data)

/-- What a store can answer: a transition returns a record in the target status, and does
not raise `AdapterError`; a claim returns claimable records; a lookup returns the effect
asked for. -/
def Possible : (r : Request) → Response r → Prop
  | .transition _ _ target _, (.ok after : Except Exc EffectRecord) => after.status = target
  | .transition .., (.error exc : Except Exc EffectRecord) => exc.isAdapterError = false
  | .claimDue .., (.ok claimed : Except Exc (List EffectRecord)) =>
    ∀ effect ∈ claimed, effect.status.isClaimable
  | .get _ effectId, (.ok (some effect) : Except Exc (Option EffectRecord)) =>
    effect.effectId = effectId
  | _, _ => True

namespace Hold

/-- An attempt has started. -/
def started (h : Hold) (attemptId : Str) : Hold :=
  match h with
  | entered route effect => attempted route effect attemptId
  | _ => h

/-- `adapter_for` has answered. -/
def builtWith (h : Hold) (answer : Except Exc Unit) : Hold :=
  match h with
  | attempted route effect attemptId => built route effect attemptId answer
  | reconciling effect => probeBuilt effect answer
  | _ => h

/-- A dispatch has ended. -/
def dispatchedWith (h : Hold) (answer : Except Exc DispatchReturn) : Hold :=
  match h with
  | built route effect attemptId _ => dispatched route effect attemptId answer
  | _ => h

/-- A probe has ended. -/
def probedWith (h : Hold) (answer : Except Exc ProbeReturn) : Hold :=
  match h with
  | probeBuilt effect _ => probed effect answer
  | _ => h

/-- What a response makes of a hold; an exception of the store changes nothing. -/
def after (route : Route) (h : Hold) : (r : Request) → Response r → Hold
  | .transition .., (.ok moved : Except Exc EffectRecord) => entering route moved
  | .startAttempt .., (.ok attemptId : Except Exc Str) => h.started attemptId
  | .adapterFor _, answer => h.builtWith answer
  | .dispatch .., answer => h.dispatchedWith answer
  | .probe _, answer => h.probedWith answer
  | _, _ => h

end Hold

/-- The records that a response shows. -/
def returned : (r : Request) → Response r → List EffectRecord
  | .reserve .., (.ok reservation : Except Exc Reservation) => [reservation.effect]
  | .claimDue .., (.ok claimed : Except Exc (List EffectRecord)) => claimed
  | .get .., (.ok (some effect) : Except Exc (Option EffectRecord)) => [effect]
  | .transition .., (.ok moved : Except Exc EffectRecord) => [moved]
  | _, _ => []

/-- The last reading of the clock after a response. -/
def clockAfter (clock : Option Datetime) : (r : Request) → Response r → Option Datetime
  | .clock, now => some now
  | _, _ => clock

/-- What a response makes of the caller. -/
def CallerState.after (l : CallerState) (r : Request) (response : Response r) : CallerState where
  procedure := l.procedure
  known := returned r response ++ l.known
  clock := clockAfter l.clock r response
  hold := l.hold.after l.procedure.route r response

/-- The protocol. -/
def callerProtocol : Protocol Response Procedure CallerState where
  start procedure := { procedure }
  Allowed := Allowed
  Possible := Possible
  after := CallerState.after

end EffectBroker
