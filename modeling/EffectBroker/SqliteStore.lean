import EffectBroker.CanonicalJson
import EffectBroker.DurationSeconds
import EffectBroker.IsoFormat
import EffectBroker.PostgresRows

/-!
# The SQLite store

`SqliteStore`, statement by statement.  Times are stored as ISO texts, payloads and event
data as canonical JSON, durations as floats.  Each operation that writes runs in one
transaction, which is rolled back when it raises: it returns the new tables, or an
exception and no tables.
-/
namespace EffectBroker
open Python

/-- A row of `effects`. -/
structure SqliteEffectRow where
  effectId : Str
  tenantId : Str
  operationKey : Str
  tool : Str
  argumentsJson : Str
  requestedBy : Str
  traceId : Option Str
  requestHash : Str
  downstreamKey : Str
  contractName : Str
  contractVersion : Str
  safetyClass : Str
  retryLimit : Int
  keyRetentionSeconds : Option ℚ
  settlementBoundSeconds : Option ℚ
  status : Str
  version : Nat
  createdAt : Str
  updatedAt : Str
  workerId : Option Str
  leaseWorkerId : Option Str
  leaseUntil : Option Str

/-- A row of `attempts`. -/
structure SqliteAttemptRow where
  attemptId : Str
  effectId : Str
  ordinal : Nat
  workerId : Str
  version : Nat
  startedAt : Str
deriving DecidableEq

/-- A row of `events`. -/
structure SqliteEventRow where
  effectId : Str
  sequence : Nat
  eventType : Str
  version : Nat
  at_ : Str
  dataJson : Str
deriving DecidableEq

/-- The database, with the keys of the tenants. -/
structure SqliteStore where
  hashes : Hashes
  tenantKeyProvider : TenantKeyProvider
  effects : List SqliteEffectRow
  attempts : List SqliteAttemptRow
  events : List SqliteEventRow

/-! ## Parameters of statements -/

/-- A parameter: texts are encoded as UTF-8 and integers have 64 bits. -/
inductive SqliteParam where
  | text (s : Str)
  | int (z : Int)

def SqliteParam.bind : SqliteParam → Except Exc Unit
  | .text s => if (encodeUtf8 s).isSome then .ok () else .error .unicodeEncodeError
  | .int z => if -(2 ^ 63) ≤ z ∧ z < 2 ^ 63 then .ok () else .error .overflowError

/-- Bind the parameters of a statement, in order. -/
def bindParams : List SqliteParam → Except Exc Unit
  | [] => .ok ()
  | param :: params =>
    match param.bind with
    | .ok () => bindParams params
    | .error exc => .error exc

/-! ## Rows and records -/

/-- `_duration_seconds`. -/
def realSeconds (value : Option Timedelta) : Option ℚ := value.map Timedelta.totalSeconds

/-- `_seconds_to_duration`. -/
def durationOfReal : Option ℚ → Except Exc (Option Timedelta)
  | none => .ok none
  | some seconds =>
    match Timedelta.ofFloatSeconds seconds with
    | some d => .ok (some d)
    | none => .error .overflowError

/-- `_parse_time`. -/
def parseTime (text : Str) : Except Exc Datetime :=
  match Datetime.fromisoformat text with
  | some t => .ok t
  | none => .error (.other (str "ValueError") text)

/-- `json.loads`. -/
def parseJson (text : Str) : Except Exc Value :=
  match loads text with
  | some value => .ok value
  | none => .error (.other (str "JSONDecodeError") text)

/-- The columns of a record with its payload encoded, and of its lease. -/
def sqliteColumns (record : EffectRecord) (argumentsJson : Str) (lease : Option Lease) :
    SqliteEffectRow where
  effectId := record.effectId
  tenantId := record.tenantId
  operationKey := record.request.operationKey
  tool := record.request.tool
  argumentsJson
  requestedBy := record.request.requestedBy
  traceId := record.request.traceId
  requestHash := record.requestHash
  downstreamKey := record.downstreamKey
  contractName := record.contract.name
  contractVersion := record.contract.version
  safetyClass := record.contract.safety.value
  retryLimit := record.contract.retryLimit
  keyRetentionSeconds := realSeconds record.contract.keyRetention
  settlementBoundSeconds := realSeconds record.contract.settlementBound
  status := record.status.value
  version := record.version
  createdAt := record.createdAt.isoformat
  updatedAt := record.updatedAt.isoformat
  workerId := lease.map Lease.workerId
  leaseWorkerId := lease.map Lease.workerId
  leaseUntil := lease.map fun lease => lease.expiresAt.isoformat

/-- `_record_params`: the columns of a new row. -/
def recordParams (record : EffectRecord) : Except Exc SqliteEffectRow := do
  let argumentsJson ← canonicalJson record.request.arguments
  return sqliteColumns record argumentsJson none

/-- The parameters of the `INSERT` of a row, in the order of the statement. -/
def SqliteEffectRow.params (row : SqliteEffectRow) : List SqliteParam :=
  [.text row.effectId, .text row.tenantId, .text row.operationKey, .text row.tool,
    .text row.argumentsJson, .text row.requestedBy] ++ row.traceId.toList.map .text ++
  [.text row.requestHash, .text row.downstreamKey, .text row.contractName,
    .text row.contractVersion, .text row.safetyClass, .int row.retryLimit, .text row.status,
    .int row.version, .text row.createdAt, .text row.updatedAt]

/-- `_row_to_record`. -/
def SqliteEffectRow.toRecord (row : SqliteEffectRow) : Except Exc EffectRecord := do
  let arguments ← parseJson row.argumentsJson
  let safety ← safetyOfText row.safetyClass
  let keyRetention ← durationOfReal row.keyRetentionSeconds
  let settlementBound ← durationOfReal row.settlementBoundSeconds
  let status ← statusOfText row.status
  let createdAt ← parseTime row.createdAt
  let updatedAt ← parseTime row.updatedAt
  return {
    effectId := row.effectId
    tenantId := row.tenantId
    request := {
      operationKey := row.operationKey
      tool := row.tool
      arguments
      requestedBy := row.requestedBy
      traceId := row.traceId }
    requestHash := row.requestHash
    downstreamKey := row.downstreamKey
    contract := {
      name := row.contractName
      version := row.contractVersion
      safety
      retryLimit := row.retryLimit
      keyRetention
      settlementBound }
    status
    version := row.version
    createdAt
    updatedAt }

/-- An event as it is returned. -/
def SqliteEventRow.stored (row : SqliteEventRow) : Except Exc StoredEvent := do
  let at_ ← parseTime row.at_
  let data ← parseJson row.dataJson
  let data ← dictOfJson data
  return ⟨row.effectId, row.sequence, row.eventType, row.version, at_, data⟩

/-- A row of the same effect, or of the same operation of the tenant. -/
def SqliteEffectRow.conflicts (row other : SqliteEffectRow) : Bool :=
  row.effectId = other.effectId ∨
    (row.tenantId = other.tenantId ∧ row.operationKey = other.operationKey)

/-- The order of `ORDER BY created_at, effect_id`. -/
def sqliteBefore (a b : SqliteEffectRow) : Prop :=
  a.createdAt < b.createdAt ∨ a.createdAt = b.createdAt ∧ a.effectId ≤ b.effectId

instance : DecidableRel sqliteBefore := fun a b =>
  inferInstanceAs (Decidable (a.createdAt < b.createdAt ∨
    a.createdAt = b.createdAt ∧ a.effectId ≤ b.effectId))

namespace SqliteStore

/-- An empty database. -/
def initial (hashes : Hashes) (tenantKeyProvider : TenantKeyProvider) : SqliteStore :=
  ⟨hashes, tenantKeyProvider, [], [], []⟩

/-! ## Statements -/

/-- `_select_by_effect_id`. -/
def selectByEffectId (s : SqliteStore) (effectId : Str) : Except Exc (Option EffectRecord) := do
  bindParams [.text effectId]
  match s.effects.find? (·.effectId = effectId) with
  | none => .ok none
  | some row => row.toRecord.map some

/-- `_select_by_identity`. -/
def selectByIdentity (s : SqliteStore) (tenantId operationKey : Str) :
    Except Exc (Option EffectRecord) := do
  bindParams [.text tenantId, .text operationKey]
  match s.effects.find? (fun row => row.tenantId = tenantId ∧ row.operationKey = operationKey) with
  | none => .ok none
  | some row => row.toRecord.map some

/-- Update the row of an effect. -/
def updateEffect (s : SqliteStore) (effectId : Str) (f : SqliteEffectRow → SqliteEffectRow) :
    SqliteStore :=
  { s with effects := s.effects.map fun row => if row.effectId = effectId then f row else row }

/-- `_append_event`: the sequence number is one more than the number of rows. -/
def appendEvent (s : SqliteStore) (effectId : Str) (eventType : EventType) (version : Nat)
    (data : Items) (at_ : Datetime) : Except Exc SqliteStore := do
  let sequence := (s.events.filter (·.effectId = effectId)).length + 1
  let dataJson ← canonicalJson (.dict data)
  bindParams [.text effectId, .int sequence, .text eventType.value, .int version,
    .text at_.isoformat, .text dataJson]
  if s.events.any (fun row => row.effectId = effectId ∧ row.sequence = sequence) then
    .error integrityError
  else
    return { s with
      events := s.events ++ [⟨effectId, sequence, eventType.value, version, at_.isoformat, dataJson⟩] }

/-- `_record_for_expected_version`. -/
def recordForExpectedVersion (s : SqliteStore) (effectId : Str) (expectedVersion : Int) :
    Except Exc EffectRecord := do
  match ← s.selectByEffectId effectId with
  | none => .error (.unknownEffect effectId)
  | some record =>
    if (record.version : Int) ≠ expectedVersion then
      .error (.versionConflict (effectId ++ str " expected version " ++ decimalInt expectedVersion ++
        str ", found " ++ decimal record.version))
    else .ok record

/-! ## Operations -/

/-- An identity that exists is replayed, or is in conflict. -/
def reserveExisting (s : SqliteStore) (record : EffectRecord) : Except Exc (Reservation × SqliteStore) := do
  match ← s.selectByIdentity record.tenantId record.request.operationKey with
  | none => .error integrityError
  | some existing =>
    if existing.requestHash ≠ record.requestHash then
      .error (.payloadConflict record.request.operationKey existing.requestHash record.requestHash)
    else .ok (⟨existing, false, true⟩, s)

/-- Reserve an effect: insert its row, or find the row that is in the way. -/
def reserve (s : SqliteStore) (now : Datetime) (uuid : Str) (tenantId : Str) (request : EffectRequest)
    (contract : EffectContract) : Except Exc (Reservation × SqliteStore) := do
  let record ← newRecord s.hashes s.tenantKeyProvider now uuid tenantId request contract
  let row ← recordParams record
  bindParams row.params
  if s.effects.any row.conflicts then s.reserveExisting record
  else
    let s ← { s with effects := s.effects ++ [row] }.appendEvent record.effectId .reserved
      record.version [(text "status", .str record.status.value)] now
    return (⟨record, true, false⟩, s)

/-- Whether the lease of a row still excludes other workers. -/
def leaseActive (row : SqliteEffectRow) (now : Datetime) : Except Exc Bool :=
  match row.leaseUntil with
  | none => .ok false
  | some leaseText => (parseTime leaseText).map fun t => decide (now < t)

/-- Claim one row. -/
def claimRow (s : SqliteStore) (workerId : Str) (now leaseUntil : Datetime) (effectId : Str) :
    Except Exc (EffectRecord × SqliteStore) := do
  bindParams [.text workerId, .text workerId, .text leaseUntil.isoformat, .text now.isoformat,
    .text effectId]
  let s := s.updateEffect effectId fun row =>
    { row with
      workerId := some workerId
      leaseWorkerId := some workerId
      leaseUntil := some leaseUntil.isoformat
      version := row.version + 1
      updatedAt := now.isoformat }
  match ← s.selectByEffectId effectId with
  | none => .error (.unknownEffect effectId)
  | some updated =>
    let s ← s.appendEvent updated.effectId .claimed updated.version
      [(text "worker_id", .str workerId), (text "lease_expires_at", .str leaseUntil.isoformat)] now
    return (updated, s)

/-- The loop of `claim_due` over the rows it selected. -/
def claimLoop (workerId : Str) (now leaseUntil : Datetime) (limit : Int) :
    List SqliteEffectRow → SqliteStore → List EffectRecord →
      Except Exc (List EffectRecord × SqliteStore)
  | [], s, claimed => .ok (claimed, s)
  | row :: rows, s, claimed =>
    if (claimed.length : Int) ≥ limit then .ok (claimed, s)
    else do
      let active ← leaseActive row now
      if active then claimLoop workerId now leaseUntil limit rows s claimed
      else
        let (updated, s) ← s.claimRow workerId now leaseUntil row.effectId
        claimLoop workerId now leaseUntil limit rows s (claimed ++ [updated])

/-- Claim due effects for a worker. -/
def claimDue (s : SqliteStore) (workerId : Str) (now : Datetime) (leaseFor : Timedelta)
    (limit : Int) : Except Exc (List EffectRecord × SqliteStore) :=
  if limit ≤ 0 then .ok ([], s)
  else
    match now.add leaseFor with
    | none => .error .overflowError
    | some leaseUntil =>
      let rows := s.effects.filter fun row =>
        row.status = EffectStatus.prepared.value ∨ row.status = EffectStatus.retryable.value
      claimLoop workerId now leaseUntil limit (rows.insertionSort sqliteBefore) s []

/-- Start the next attempt. -/
def startAttempt (s : SqliteStore) (now : Datetime) (effectId : Str) (expectedVersion : Int)
    (workerId : Str) : Except Exc (Str × SqliteStore) := do
  let record ← s.recordForExpectedVersion effectId expectedVersion
  let ordinal := (s.attempts.filter (·.effectId = effectId)).length + 1
  let attemptId := attemptIdOf effectId ordinal
  bindParams [.text attemptId, .text effectId, .int ordinal, .text workerId, .int expectedVersion,
    .text now.isoformat]
  if s.attempts.any (fun row => row.attemptId = attemptId ∨
      (row.effectId = effectId ∧ row.ordinal = ordinal)) then .error integrityError
  else
    let row : SqliteAttemptRow :=
      ⟨attemptId, effectId, ordinal, workerId, expectedVersion.toNat, now.isoformat⟩
    let s ← { s with attempts := s.attempts ++ [row] }.appendEvent effectId .attemptStarted
      record.version
      [(text "attempt_id", .str attemptId), (text "ordinal", .int ordinal),
        (text "worker_id", .str workerId)] now
    return (attemptId, s)

/-- Move an effect along an edge of the transition graph. -/
def transition (s : SqliteStore) (now : Datetime) (effectId : Str) (expectedVersion : Int)
    (target : EffectStatus) (data : Items) : Except Exc (EffectRecord × SqliteStore) := do
  let record ← s.recordForExpectedVersion effectId expectedVersion
  assertTransition record.status target
  bindParams [.text target.value, .text now.isoformat, .text effectId, .int expectedVersion]
  if s.effects.any (fun row => row.effectId = effectId ∧ (row.version : Int) = expectedVersion) then
    let s := s.updateEffect effectId fun row =>
      { row with
        status := target.value
        version := row.version + 1
        updatedAt := now.isoformat
        workerId := none
        leaseWorkerId := none
        leaseUntil := none }
    match ← s.selectByEffectId effectId with
    | none => .error (.unknownEffect effectId)
    | some updated =>
      let s ← s.appendEvent effectId .transition updated.version
        (InMemoryStore.transitionData record.status target data) now
      return (updated, s)
  else
    .error (.versionConflict (effectId ++ str " expected version " ++ decimalInt expectedVersion))

/-! ## Queries -/

/-- The effect, for its own tenant. -/
def get (s : SqliteStore) (tenantId effectId : Str) : Except Exc (Option EffectRecord) := do
  bindParams [.text tenantId, .text effectId]
  match s.effects.find? (fun row => row.tenantId = tenantId ∧ row.effectId = effectId) with
  | none => .ok none
  | some row => row.toRecord.map some

/-- `LIMIT limit OFFSET offset`: a negative limit is no limit. -/
def page {α : Type} (rows : List α) (limit offset : Int) : List α :=
  let rows := rows.drop offset.toNat
  if limit < 0 then rows else rows.take limit.toNat

/-- One page of the effects of a tenant. -/
def list (s : SqliteStore) (tenantId : Str) (status : Option EffectStatus) (limit offset : Int) :
    Except Exc (List EffectRecord) := do
  bindParams (.text tenantId :: status.toList.map (fun status => .text status.value) ++
    [.int limit, .int offset])
  let rows := s.effects.filter fun row =>
    row.tenantId = tenantId && status.all (fun status => row.status = status.value)
  (page (rows.insertionSort sqliteBefore) limit offset).mapM SqliteEffectRow.toRecord

/-- The rows of the events of an effect, `ORDER BY sequence`. -/
def eventRows (s : SqliteStore) (effectId : Str) : List SqliteEventRow :=
  (s.events.filter (·.effectId = effectId)).insertionSort fun a b => a.sequence ≤ b.sequence

/-- The `metadata` and the time of the first of these rows that tells of a success. -/
def firstSuccess : List SqliteEventRow → Except Exc (Option (Items × Str))
  | [] => .ok none
  | row :: rows => do
    let data ← parseJson row.dataJson
    let data ← dictOfJson data
    if (data.get? (str "to")).any (Value.isStr EffectStatus.succeeded.value) then
      let metadata ← dictOfJson ((data.get? (str "metadata")).getD (.dict []))
      return some (metadata, row.at_)
    else firstSuccess rows

/-- The receipt of a successful effect, for its own tenant. -/
def receipt (s : SqliteStore) (tenantId effectId : Str) : Except Exc (Option Items) := do
  match ← s.get tenantId effectId with
  | none => .ok none
  | some record =>
    let rows := (s.eventRows effectId).filter (·.eventType = EventType.transition.value)
    let success ← firstSuccess rows.reverse
    return success.map fun (metadata, at_) =>
      [(text "effect_id", .str effectId), (text "status", .str EffectStatus.succeeded.value),
        (text "contract", .str record.contract.name),
        (text "contract_version", .str record.contract.version),
        (text "downstream_key", .str record.downstreamKey), (text "metadata", .dict metadata),
        (text "recorded_at", .str at_)]

/-- The event stream of an effect. -/
def eventsOf (s : SqliteStore) (effectId : Str) : Except Exc (List StoredEvent) := do
  bindParams [.text effectId]
  (s.eventRows effectId).mapM SqliteEventRow.stored

/-- The number of attempts of an effect. -/
def attemptCount (s : SqliteStore) (effectId : Str) : Except Exc Nat := do
  bindParams [.text effectId]
  return (s.attempts.filter (·.effectId = effectId)).length

/-- The outcome of a transaction: what raises leaves the tables as they were. -/
def committed {α : Type} (s : SqliteStore) (reply : α → StoreValue) :
    Except Exc (α × SqliteStore) → Except Exc StoreValue × SqliteStore
  | .ok (value, after) => (.ok (reply value), after)
  | .error exc => (.error exc, s)

/-- Serve a call. -/
def serve (c : TimedCall) (s : SqliteStore) : Except Exc StoreValue × SqliteStore :=
  match c.call with
  | .reserve tenantId request contract =>
    s.committed .reservation (s.reserve c.now c.uuid tenantId request contract)
  | .claimDue workerId now leaseFor limit =>
    s.committed .effects (s.claimDue workerId now leaseFor limit)
  | .startAttempt effectId expectedVersion workerId =>
    s.committed .attemptId (s.startAttempt c.now effectId expectedVersion workerId)
  | .transition effectId expectedVersion target data =>
    s.committed .effect (s.transition c.now effectId expectedVersion target data)
  | .get tenantId effectId => ((s.get tenantId effectId).map .found, s)
  | .list tenantId status limit offset => ((s.list tenantId status limit offset).map .effects, s)
  | .receipt tenantId effectId => ((s.receipt tenantId effectId).map .receipt, s)
  | .events effectId => ((s.eventsOf effectId).map .events, s)
  | .attemptCount effectId => ((s.attemptCount effectId).map .number, s)
  | .count => (.ok (.number s.effects.length), s)

end SqliteStore
end EffectBroker
