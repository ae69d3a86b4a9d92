import EffectBroker.Engine
import EffectBroker.Interleaving
import EffectBroker.MemoryStore

/-!
# The running broker

Any number of callers run the broker's procedures over one store, one set of metric
samples, and adapters.  A store is the interface of `store/base.py`.  Adapters have
a state of their own and answer as the surroundings choose; `anyAdapters` answer
anything at all.
-/
namespace EffectBroker
open Python Concurrency

/-- What the surroundings decide at a request: the wall clock, a fresh `uuid4().hex`,
and what adapters do. -/
structure Surroundings (Decision : Type) where
  now : Datetime
  uuid : Str
  decision : Decision

/-- The operations of a store that the broker's procedures use. -/
structure EffectStore (Store : Type) where
  reserve : Store → Datetime → Str → Str → EffectRequest → EffectContract →
    Except Exc Reservation × Store
  claimDue : Store → Str → Datetime → Timedelta → Int → Except Exc (List EffectRecord) × Store
  startAttempt : Store → Datetime → Str → Int → Str → Except Exc Str × Store
  transition : Store → Datetime → Str → Int → EffectStatus → Items →
    Except Exc EffectRecord × Store
  get : Store → Str → Str → Except Exc (Option EffectRecord)

/-- `adapter_for`, the adapters it returns, and their targets. -/
structure Adapters (Target Decision : Type) where
  adapterFor : Decision → EffectRecord → Target → Except Exc Unit × Target
  dispatch : Decision → EffectRecord → Str → Target → Except Exc DispatchReturn × Target
  probe : Decision → EffectRecord → Target → Except Exc ProbeReturn × Target
  disturb : Decision → Target → Target

/-- Everything the callers share. -/
structure Shared (Store Target : Type) where
  store : Store
  metrics : Metrics
  target : Target

/-- The in-memory store. -/
def memoryStore : EffectStore InMemoryStore where
  reserve s now _ tenantId request contract := s.reserve now tenantId request contract
  claimDue s workerId now leaseFor limit := s.claimDue workerId now leaseFor limit
  startAttempt s now effectId expectedVersion workerId :=
    s.startAttempt now effectId expectedVersion workerId
  transition s now effectId expectedVersion target data :=
    s.transition now effectId expectedVersion target data
  get s tenantId effectId := .ok (s.get tenantId effectId)

/-- What an adapter may answer to each of its calls. -/
structure AnyAnswer where
  adapterFor : Except Exc Unit
  dispatch : Except Exc DispatchReturn
  probe : Except Exc ProbeReturn

/-- Adapters that may return or raise anything. -/
def anyAdapters : Adapters Unit AnyAnswer where
  adapterFor decision _ _ := (decision.adapterFor, ())
  dispatch decision _ _ _ := (decision.dispatch, ())
  probe decision _ _ := (decision.probe, ())
  disturb _ _ := ()

section
variable {Store Target Decision : Type}

/-- Serve a request. -/
def serve (store : EffectStore Store) (adapters : Adapters Target Decision) (r : Request)
    (surroundings : Surroundings Decision) (s : Shared Store Target) :
    Response r × Shared Store Target :=
  match r with
  | .reserve tenantId request contract =>
    let (result, state) := store.reserve s.store surroundings.now surroundings.uuid tenantId
      request contract
    (result, { s with store := state })
  | .claimDue workerId now leaseFor limit =>
    let (result, state) := store.claimDue s.store workerId now leaseFor limit
    (result, { s with store := state })
  | .startAttempt effectId expectedVersion workerId =>
    let (result, state) := store.startAttempt s.store surroundings.now effectId expectedVersion
      workerId
    (result, { s with store := state })
  | .transition effectId expectedVersion target data =>
    let (result, state) := store.transition s.store surroundings.now effectId expectedVersion
      target data
    (result, { s with store := state })
  | .get tenantId effectId => (store.get s.store tenantId effectId, s)
  | .clock => (surroundings.now, s)
  | .adapterFor effect =>
    let (answer, target) := adapters.adapterFor surroundings.decision effect s.target
    (answer, { s with target })
  | .dispatch effect attemptId =>
    let (answer, target) := adapters.dispatch surroundings.decision effect attemptId s.target
    (answer, { s with target })
  | .probe effect =>
    let (answer, target) := adapters.probe surroundings.decision effect s.target
    (answer, { s with target })
  | .record metric => ((), { s with metrics := s.metrics.record metric })

/-- The running broker. -/
def broker (store : EffectStore Store) (adapters : Adapters Target Decision) :
    System Response Exc Procedure Reply (Shared Store Target) (Surroundings Decision) where
  program := Procedure.program
  external := Request.external
  exec := serve store adapters
  disturb surroundings s := { s with target := adapters.disturb surroundings.decision s.target }

end

/-- An event of the running broker. -/
abbrev BrokerEvent := Event Response Procedure

/-- The broker over an in-memory store. -/
abbrev memoryBroker {Target Decision : Type} (adapters : Adapters Target Decision) :=
  broker memoryStore adapters

/-- An empty in-memory store, reset metrics, and a target. -/
def Shared.initial {Target : Type} (hashes : Hashes) (tenantKeyProvider : TenantKeyProvider)
    (target : Target) : Shared InMemoryStore Target :=
  ⟨.initial hashes tenantKeyProvider, {}, target⟩

/-! ## A sample ledger

One operation of one tenant, for runs on concrete inputs. -/

/-- The digests of the sample operation, for the default secret of the in-memory store. -/
def sampleHashes : Hashes where
  sha256 _ := [21, 93, 203, 227, 36, 136, 18, 108, 101, 213, 201, 133, 77, 171, 225, 72, 185, 28,
    193, 131, 57, 51, 216, 44, 26, 60, 20, 72, 150, 25, 15, 180]
  hmacSha256 _ message :=
    if message.length = 4 then
      [218, 52, 101, 56, 255, 163, 209, 83, 68, 243, 205, 162, 205, 76, 73, 163, 94, 66, 47, 29, 98,
        254, 88, 170, 224, 219, 137, 139, 214, 69, 104, 198]
    else
      [39, 210, 218, 83, 191, 40, 147, 90, 65, 181, 184, 182, 124, 137, 222, 127, 108, 16, 147, 80,
        3, 5, 87, 8, 147, 8, 99, 57, 115, 127, 41, 27]

def sampleKeys : TenantKeyProvider := tenantKeyProviderFromSecret sampleHashes []

def sampleTenant : Str := str "acme"

def sampleRequest : EffectRequest where
  operationKey := str "order-1"
  tool := str "charge"
  arguments := .dict [(text "amount", .int 5)]
  requestedBy := str "agent"

/-- Another operation of the tenant. -/
def otherRequest : EffectRequest := { sampleRequest with operationKey := str "order-2" }

instance neZero_sampleDays : NeZero 100 := ⟨by decide⟩

/-- A time of some day, in whole seconds, and the days after it. -/
def sampleTime (day : Fin 100) : Datetime := ⟨63902000000000000 + day * 86400000000, by omega⟩

def oneDay : Timedelta := ⟨86400000000, by decide, by decide⟩

/-- A contract that is valid for every class if it does not retry. -/
def sampleContract (safety : SafetyClass) (retryLimit : Int) : EffectContract where
  name := str "charge"
  version := str "1"
  safety := safety
  retryLimit := retryLimit
  keyRetention := some oneDay
  settlementBound := some .zero

def sampleBroker (contract : EffectContract) : Broker :=
  ⟨⟨Dict.empty.set (str "charge") contract⟩, true⟩

/-- A caller submits the sample operation. -/
def submitSample {Decision : Type} (caller : Nat) (contract : EffectContract)
    (surroundings : Surroundings Decision) : List (Choice Procedure (Surroundings Decision)) :=
  .call caller (.submit (sampleBroker contract) sampleTenant sampleRequest) ::
    List.replicate 2 (.answer caller surroundings)

/-- A worker claims one effect and comes up to its first dispatch. -/
def claimSample {Decision : Type} (caller : Nat) (now : Datetime)
    (surroundings : Surroundings Decision) : List (Choice Procedure (Surroundings Decision)) :=
  .call caller (.dispatchOnce (str "w") now .zero 1) ::
    List.replicate 6 (.answer caller surroundings) ++ [.begin caller]

/-- The sample effect, in a status. -/
def sampleEffect (contract : EffectContract) (status : EffectStatus) (version : Nat) :
    EffectRecord where
  effectId := effectIdOf 1
  tenantId := sampleTenant
  request := sampleRequest
  requestHash := hexdigest (sampleHashes.sha256 [])
  downstreamKey := urlsafeBase64 (sampleHashes.hmacSha256 [] [])
  contract := contract
  status := status
  version := version
  createdAt := sampleTime 0
  updatedAt := sampleTime 0

/-- The world that choices lead to from an empty store, under adapters that may answer
anything. -/
def sampleWorld (choices : List (Choice Procedure (Surroundings AnyAnswer))) :
    World Response Exc Procedure Reply (Shared InMemoryStore Unit) :=
  (memoryBroker anyAdapters).after (World.initial (.initial sampleHashes sampleKeys ())) choices

theorem sampleWorld_reachable (choices : List (Choice Procedure (Surroundings AnyAnswer))) :
    (memoryBroker anyAdapters).Reachable (.initial sampleHashes sampleKeys ())
      (sampleWorld choices) :=
  System.reachableFrom_after _ _ choices

end EffectBroker
