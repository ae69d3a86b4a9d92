import EffectBroker.BrokerCalls
import EffectBroker.Fronts
import EffectBroker.SqliteStore

/-!
# The HTTP process

`api.py` and `auth.py`: tenants call the broker over HTTP, and are who their API keys say.
The process is a front of the running broker (`httpProcess`): what it does not answer by itself
or by a read of the ledger, it hands on to a procedure of the broker.  Requests are taken after
they have been parsed, so bodies carry the bounds that their fields declare.
-/
namespace EffectBroker
open Python Concurrency

/-! ## API keys -/

/-- `hash_api_key`. -/
def hashApiKey (hashes : Hashes) (rawKey : Str) : Except Exc Str := do
  let bytes ← encode rawKey
  return hexdigest (hashes.sha256 bytes)

/-- `hmac.compare_digest` of two texts. -/
def compareDigest (a b : Str) : Except Exc Bool :=
  if (a ++ b).all (· < 128) then .ok (a = b)
  else .error (.typeError (str "comparing strings with non-ASCII characters is not supported"))

/-- Tenant lookup by SHA-256 API-key digest. -/
structure APIKeyAuthenticator where
  keyHashToTenant : Dict Str Str

namespace APIKeyAuthenticator

/-- `from_settings`: configured keys come before the one for development. -/
def fromSettings (hashes : Hashes) (apiKeyHashes : Dict Str Str) (devApiKeyEnabled : Bool)
    (devApiKey devTenantId : Str) : Except Exc APIKeyAuthenticator :=
  if devApiKeyEnabled then do
    let digest ← hashApiKey hashes devApiKey
    return ⟨match apiKeyHashes.get? digest with
      | some _ => apiKeyHashes
      | none => apiKeyHashes.set digest devTenantId⟩
  else .ok ⟨apiKeyHashes⟩

/-- The tenant of the first stored hash that is the incoming one. -/
def tenantOfHash (incoming : Str) : List (Str × Str) → Except Exc (Option Str)
  | [] => .ok none
  | (storedHash, tenantId) :: rest => do
    if ← compareDigest storedHash incoming then return some tenantId
    else tenantOfHash incoming rest

/-- `tenant_for_key`. -/
def tenantForKey (authenticator : APIKeyAuthenticator) (hashes : Hashes) (rawKey : Str) :
    Except Exc (Option Str) := do
  let incoming ← hashApiKey hashes rawKey
  tenantOfHash incoming authenticator.keyHashToTenant.items

end APIKeyAuthenticator

/-- The headers that `require_tenant` reads. -/
structure Credentials where
  apiKey : Option Str
  bearer : Option Str

/-- Why there is no tenant: a 401 with its detail, or an exception. -/
inductive Denial where
  | unauthorized (detail : Str)
  | raised (exc : Exc)
deriving DecidableEq

/-- The key that counts: the header of its own, if there is one. -/
def Credentials.rawKey (credentials : Credentials) : Option Str :=
  credentials.apiKey.or credentials.bearer

/-- `require_tenant`. -/
def requireTenant (authenticator : APIKeyAuthenticator) (hashes : Hashes) (credentials : Credentials) :
    Except Denial Str :=
  match credentials.rawKey with
  | none | some [] => .error (.unauthorized (str "missing API key"))
  | some rawKey =>
    match authenticator.tenantForKey hashes rawKey with
    | .error exc => .error (.raised exc)
    | .ok none => .error (.unauthorized (str "invalid API key"))
    | .ok (some tenantId) => .ok tenantId

/-! ## Bodies -/

structure SubmitEffectBody where
  operationKey : Str
  tool : Str
  arguments : Items
  requestedBy : Str
  traceId : Option Str

/-- The request of a body. -/
def SubmitEffectBody.request (body : SubmitEffectBody) : EffectRequest where
  operationKey := body.operationKey
  tool := body.tool
  arguments := .dict body.arguments
  requestedBy := body.requestedBy
  traceId := body.traceId

structure ContractBody where
  name : Str
  version : Str
  safety : Str
  retryLimit : Int
  keyRetentionSeconds : Option ℚ
  settlementBoundSeconds : Option ℚ

structure EffectBody where
  effectId : Str
  status : EffectStatus
  contract : ContractBody
  version : Nat
  createdAt : Datetime
  updatedAt : Datetime
  operationKey : Str
  tool : Str
  requestedBy : Str
  traceId : Option Str

structure ReservationBody where
  effectId : Str
  status : EffectStatus
  created : Bool
  replayed : Bool

structure ListEffectsBody where
  items : List EffectBody
  limit : Int
  offset : Int

/-- `Literal["succeeded", "failed_final", "compensated"]`. -/
inductive Resolution where
  | succeeded | failedFinal | compensated
deriving DecidableEq

/-- `EffectStatus(body.resolution)`. -/
def Resolution.status : Resolution → EffectStatus
  | .succeeded => .succeeded
  | .failedFinal => .failedFinal
  | .compensated => .compensated

structure ResolveEffectBody where
  resolution : Resolution
  evidence : Items

structure CancelEffectBody where
  expectedVersion : Int
  actor : Str
  reason : Str
  expectedVersion_nonneg : 0 ≤ expectedVersion
  actor_ne : actor ≠ []
  reason_ne : reason ≠ []

structure ListQuery where
  status : Option EffectStatus
  limit : Int
  offset : Int
  limit_pos : 1 ≤ limit
  limit_le : limit ≤ 500
  offset_nonneg : 0 ≤ offset

structure ReconcileBody where
  effectId : Str
  status : EffectStatus

/-- `_effect_body`. -/
def effectBody (effect : EffectRecord) : EffectBody where
  effectId := effect.effectId
  status := effect.status
  contract := {
    name := effect.contract.name
    version := effect.contract.version
    safety := effect.contract.safety.value
    retryLimit := effect.contract.retryLimit
    keyRetentionSeconds := realSeconds effect.contract.keyRetention
    settlementBoundSeconds := realSeconds effect.contract.settlementBound }
  version := effect.version
  createdAt := effect.createdAt
  updatedAt := effect.updatedAt
  operationKey := effect.request.operationKey
  tool := effect.request.tool
  requestedBy := effect.request.requestedBy
  traceId := effect.request.traceId

/-! ## Errors -/

/-- `isinstance(exc, EffectBrokerError)`. -/
def Exc.isEffectBrokerError : Exc → Bool
  | .canonicalizationError _ | .contractError _ | .payloadConflict .. | .invalidTransition ..
  | .versionConflict _ | .unknownEffect _ | .adapterError .. => true
  | _ => false

/-- `_status_for_error`. -/
def statusForError : Exc → Nat
  | .unknownEffect _ => 404
  | .payloadConflict .. => 409
  | .invalidTransition .. | .versionConflict _ => 409
  | .contractError _ | .canonicalizationError _ => 422
  | _ => 500

/-- `_title_for_error`. -/
def titleForError : Exc → Str
  | .unknownEffect _ => str "Effect not found"
  | .payloadConflict .. => str "Payload conflict"
  | .invalidTransition .. | .versionConflict _ => str "Invalid transition"
  | .contractError _ => str "Contract error"
  | .canonicalizationError _ => str "Canonicalization error"
  | _ => str "Effect broker error"

/-- A problem; its detail is the text of the exception. -/
structure Problem where
  type : Str
  title : Str
  status : Nat
  detail : Exc

inductive HttpBody where
  | reservation (body : ReservationBody)
  | effect (body : EffectBody)
  | effects (body : ListEffectsBody)
  | receipt (body : Items)
  | reconciled (body : ReconcileBody)
  | health (status : Str)
  | metrics (samples : Metrics)
  | problem (problem : Problem)
  | detail (detail : Str)
  | internalServerError

structure HttpResponse where
  status : Nat
  body : HttpBody

/-- `domain_error_handler`, and what the server makes of any other exception. -/
def errorResponse (exc : Exc) : HttpResponse :=
  if exc.isEffectBrokerError then
    ⟨statusForError exc, .problem {
      type := str "https://effect-broker.local/problems/" ++ exc.className
      title := titleForError exc
      status := statusForError exc
      detail := exc }⟩
  else ⟨500, .internalServerError⟩

def Denial.response : Denial → HttpResponse
  | .unauthorized detail => ⟨401, .detail detail⟩
  | .raised exc => errorResponse exc

/-- The response of a result. -/
def respond {α : Type} (render : α → HttpResponse) : Except Exc α → HttpResponse
  | .ok value => render value
  | .error exc => errorResponse exc

/-! ## Requests -/

/-- A request on the effects of a tenant. -/
inductive EffectsRequest where
  | submitEffect (body : SubmitEffectBody)
  | getEffect (effectId : Str)
  | getReceipt (effectId : Str)
  | reconcileEffect (effectId : Str)
  | listEffects (query : ListQuery)
  | resolveEffect (effectId : Str) (body : ResolveEffectBody)
  | cancelEffect (effectId : Str) (body : CancelEffectBody)

/-- A request, or a batch of a worker that shares the ledger. -/
inductive ProcessTask where
  | healthz
  | metrics
  | effects (credentials : Credentials) (request : EffectsRequest)
  | work (workerId : Str) (now : Datetime) (leaseFor : Timedelta) (limit : Int)

/-- What a process replies. -/
inductive ProcessReply where
  | response (response : HttpResponse)
  | worked (effects : List EffectRecord)

/-- What a request may read at once. -/
inductive Read where
  | receipt (tenantId effectId : Str)
  | list (tenantId : Str) (status : Option EffectStatus) (limit offset : Int)
  | metrics

abbrev ReadResponse : Read → Type
  | .receipt .. => Except Exc Items
  | .list .. => List EffectRecord
  | .metrics => Metrics

/-- Read the in-memory store. -/
def readMemory {Target : Type} : (query : Read) → Shared InMemoryStore Target → ReadResponse query
  | .receipt tenantId effectId, s => Broker.replayReceipt s.store tenantId effectId
  | .list tenantId status limit offset, s => Broker.list s.store tenantId status limit offset
  | .metrics, s => s.metrics

/-- `create_app`: the broker and the authenticator of the process. -/
structure HttpProcess where
  broker : Broker
  authenticator : APIKeyAuthenticator
  hashes : Hashes

namespace HttpProcess

/-- The reply to a request that ends in an effect. -/
def effectReply (render : EffectRecord → HttpResponse) (result : Except Exc Reply) :
    Except Exc ProcessReply :=
  .ok (.response (respond (fun reply => match reply with
    | .effect effect => render effect
    | _ => ⟨500, .internalServerError⟩) result))

def reservationReply (result : Except Exc Reply) : Except Exc ProcessReply :=
  .ok (.response (respond (fun reply => match reply with
    | .reservation reservation => ⟨201, .reservation {
        effectId := reservation.effect.effectId
        status := reservation.effect.status
        created := reservation.created
        replayed := reservation.replayed }⟩
    | _ => ⟨500, .internalServerError⟩) result))

/-- The results of a batch. -/
def workReply : Except Exc Reply → Except Exc ProcessReply
  | .ok (.effects effects) => .ok (.worked effects)
  | .ok _ => .ok (.worked [])
  | .error exc => .error exc

/-- What becomes of a request of a tenant. -/
def authorized (process : HttpProcess) (tenantId : Str) :
    EffectsRequest → Admission ReadResponse Exc ProcessReply Procedure Reply
  | .submitEffect body =>
    .handed (.submit process.broker tenantId body.request) reservationReply
  | .getEffect effectId =>
    .handed (.get tenantId effectId) (effectReply fun effect => ⟨200, .effect (effectBody effect)⟩)
  | .getReceipt effectId =>
    .reads (.receipt tenantId effectId) fun result =>
      .ok (.response (respond (fun receipt => ⟨200, .receipt receipt⟩) result))
  | .reconcileEffect effectId =>
    .handed (.reconcile process.broker tenantId effectId) (effectReply fun effect =>
      ⟨200, .reconciled ⟨effect.effectId, effect.status⟩⟩)
  | .listEffects query =>
    .reads (.list tenantId query.status query.limit query.offset) fun effects =>
      .ok (.response ⟨200, .effects ⟨effects.map effectBody, query.limit, query.offset⟩⟩)
  | .resolveEffect effectId body =>
    .handed (.resolve tenantId effectId body.resolution.status body.evidence)
      (effectReply fun effect => ⟨200, .effect (effectBody effect)⟩)
  | .cancelEffect effectId body =>
    .handed (.cancel tenantId effectId body.expectedVersion body.actor body.reason)
      (effectReply fun effect => ⟨200, .effect (effectBody effect)⟩)

/-- What becomes of a task. -/
def admits (process : HttpProcess) : ProcessTask → Admission ReadResponse Exc ProcessReply Procedure Reply
  | .healthz => .answered (.ok (.response ⟨200, .health (str "ok")⟩))
  | .metrics => .reads .metrics fun samples => .ok (.response ⟨200, .metrics samples⟩)
  | .effects credentials request =>
    match requireTenant process.authenticator process.hashes credentials with
    | .error denial => .answered (.ok (.response denial.response))
    | .ok tenantId => process.authorized tenantId request
  | .work workerId now leaseFor limit => .handed (.dispatchOnce workerId now leaseFor limit) workReply

end HttpProcess

/-- The processes over one in-memory store: requests and workers in any interleaving. -/
abbrev httpProcess {Target Decision : Type} (process : HttpProcess) (adapters : Adapters Target Decision) :
    System (Sum.elim Response ReadResponse) Exc ProcessTask ProcessReply (Shared InMemoryStore Target)
      (Surroundings Decision) :=
  (memoryBroker adapters).front readMemory process.admits

end EffectBroker
