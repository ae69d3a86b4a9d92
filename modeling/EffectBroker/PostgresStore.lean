import EffectBroker.PostgresTables

/-!
# The Postgres store

`PostgresStore`, statement by statement: each operation is the program of one transaction,
which is rolled back when it raises.
-/
namespace EffectBroker
open Python Concurrency Transactions

/-- A program of the Postgres store. -/
abbrev PostgresProgram (α : Type) := Coroutine PostgresStatement.Response Exc α

/-- `one_or_none`. -/
def oneOrNone {α : Type} : List α → Except Exc (Option α)
  | [] => .ok none
  | [row] => .ok (some row)
  | _ => .error (.other (str "MultipleResultsFound") [])

/-- `one`. -/
def exactlyOne {α : Type} : List α → Except Exc α
  | [row] => .ok row
  | [] => .error (.other (str "NoResultFound") [])
  | _ => .error (.other (str "MultipleResultsFound") [])

namespace PostgresStore

/-- `await conn.execute(…)`. -/
abbrev execute (r : PostgresStatement) : PostgresProgram r.Response := Coroutine.request r

/-- A computation without statements. -/
abbrev compute {α : Type} (result : Except Exc α) : PostgresProgram α := Coroutine.ofExcept result

/-- `_append_event`. -/
def appendEvent (effectId : Str) (eventType : EventType) (version : Nat) (data : Items)
    (at_ : Datetime) : PostgresProgram Unit := do
  let sequence ← execute (.nextSequence effectId)
  let dataJson ← compute (jsonValue (.dict data))
  let inserted ← execute (.insertEvent ⟨effectId, sequence, eventType.value, version, at_, dataJson⟩)
  compute inserted

/-- Insert a row of `effect_attempts`. -/
def insertAttempt (row : AttemptRow) : PostgresProgram Unit := do
  let inserted ← execute (.insertAttempt row)
  compute inserted

/-- What follows the `SELECT` of `_record_for_expected_version`. -/
def expectVersion (effectId : Str) (expectedVersion : Int) :
    Option IntentRow → PostgresProgram EffectRecord
  | none => throw (.unknownEffect effectId)
  | some row => do
    let record ← compute row.toRecord
    if (record.version : Int) ≠ expectedVersion then
      throw (.versionConflict (effectId ++ str " expected version " ++ decimalInt expectedVersion ++
        str ", found " ++ decimal record.version))
    else pure record

/-- `_record_for_expected_version`. -/
def recordForExpectedVersion (effectId : Str) (expectedVersion : Int) (lock : Bool) :
    PostgresProgram EffectRecord := do
  let rows ← execute (.selectIntent effectId lock)
  let row ← compute (oneOrNone rows)
  expectVersion effectId expectedVersion row

/-- `_select_by_identity`. -/
def selectByIdentity (tenantId operationKey : Str) : PostgresProgram (Option EffectRecord) := do
  let rows ← execute (.selectIdentity tenantId operationKey)
  let row ← compute (oneOrNone rows)
  match row with
  | none => pure none
  | some row =>
    let record ← compute row.toRecord
    pure (some record)

/-- `_insert_receipt`. -/
def insertReceipt (uuid : Str) (record : EffectRecord) (data : Items) (at_ : Datetime) :
    PostgresProgram Unit := do
  let metadataJson ← compute (jsonValue (.dict data))
  let inserted ← execute (.insertReceipt {
    receiptId := str "rcpt_" ++ uuid
    effectId := record.effectId
    externalId := (data.get? (str "external_id")).getD .none
    contractName := record.contract.name
    contractVersion := record.contract.version
    downstreamKey := record.downstreamKey
    metadataJson
    createdAt := at_ })
  compute inserted

/-- The identity exists: it is replayed, or is in conflict. -/
def reserveExisting (record : EffectRecord) : PostgresProgram Reservation := do
  let existing ← selectByIdentity record.tenantId record.request.operationKey
  match existing with
  | none => throw (.versionConflict (record.tenantId ++ str "/" ++ record.request.operationKey ++
      str " disappeared"))
  | some existing =>
    if existing.requestHash ≠ record.requestHash then
      throw (.payloadConflict record.request.operationKey existing.requestHash record.requestHash)
    else pure ⟨existing, false, true⟩

/-- Reserve an effect: insert its row, or find the row that is in the way. -/
def reserve (hashes : Hashes) (tenantKeyProvider : TenantKeyProvider) (now : Datetime) (uuid : Str)
    (tenantId : Str) (request : EffectRequest) (contract : EffectContract) :
    PostgresProgram Reservation := do
  let record ← compute
    (newRecord hashes tenantKeyProvider now uuid tenantId request contract)
  execute (.insertTenant tenantId)
  let row ← compute (recordValues record)
  let rows ← execute (.insertIntent row)
  let rows ← compute rows
  let inserted ← compute (oneOrNone rows)
  match inserted with
  | none => reserveExisting record
  | some row =>
    appendEvent record.effectId .reserved record.version
      [(text "status", .str record.status.value)] now
    let effect ← compute row.toRecord
    pure ⟨effect, true, false⟩

/-- Claim one of the rows that have been selected. -/
def claimRow (workerId : Str) (now leaseUntil : Datetime) (effectId : Str) :
    PostgresProgram EffectRecord := do
  let rows ← execute (.updateClaimed effectId workerId leaseUntil now)
  let updated ← compute (exactlyOne rows)
  appendEvent updated.effectId .claimed updated.version
    [(text "worker_id", .str workerId), (text "lease_expires_at", .str leaseUntil.isoformat)] now
  compute updated.toRecord

/-- The loop of `claim_due` over the rows it selected. -/
def claimRows (workerId : Str) (now leaseUntil : Datetime) :
    List IntentRow → PostgresProgram (List EffectRecord)
  | [] => pure []
  | row :: rows => do
    let record ← claimRow workerId now leaseUntil row.effectId
    let records ← claimRows workerId now leaseUntil rows
    pure (record :: records)

/-- Claim due effects for a worker. -/
def claimDue (workerId : Str) (now : Datetime) (leaseFor : Timedelta) (limit : Int) :
    PostgresProgram (List EffectRecord) :=
  if limit ≤ 0 then pure []
  else
    match now.add leaseFor with
    | none => throw .overflowError
    | some leaseUntil => do
      let rows ← execute (.selectDue now limit)
      claimRows workerId now leaseUntil rows

/-- Start the next attempt. -/
def startAttempt (now : Datetime) (effectId : Str) (expectedVersion : Int) (workerId : Str) :
    PostgresProgram Str := do
  let record ← recordForExpectedVersion effectId expectedVersion true
  let count ← execute (.countAttempts effectId)
  insertAttempt
    ⟨attemptIdOf effectId (count + 1), effectId, count + 1, workerId, expectedVersion, now⟩
  appendEvent effectId .attemptStarted record.version
    [(text "attempt_id", .str (attemptIdOf effectId (count + 1))), (text "ordinal", .int (count + 1 : Nat)),
      (text "worker_id", .str workerId)] now
  pure (attemptIdOf effectId (count + 1))

/-- What follows the update of `transition`: the event, and the receipt of a success. -/
def recordMove (uuid effectId : Str) (source target : EffectStatus) (data : Items) (now : Datetime)
    (row : IntentRow) : PostgresProgram EffectRecord := do
  appendEvent effectId .transition row.version (InMemoryStore.transitionData source target data) now
  if target = .succeeded then
    let updated ← compute row.toRecord
    insertReceipt uuid updated data now
  compute row.toRecord

/-- Move an effect along an edge of the transition graph, if its version is still the
expected one. -/
def transition (now : Datetime) (uuid : Str) (effectId : Str) (expectedVersion : Int)
    (target : EffectStatus) (data : Items) : PostgresProgram EffectRecord := do
  let record ← recordForExpectedVersion effectId expectedVersion false
  compute (assertTransition record.status target)
  let rows ← execute (.updateMoved effectId expectedVersion target now)
  let updated ← compute (oneOrNone rows)
  match updated with
  | none =>
    throw (.versionConflict (effectId ++ str " expected version " ++ decimalInt expectedVersion))
  | some row => recordMove uuid effectId record.status target data now row

/-! ## Queries -/

/-- The effect, for its own tenant. -/
def get (tenantId effectId : Str) : PostgresProgram (Option EffectRecord) := do
  let rows ← execute (.selectOwned tenantId effectId)
  let row ← compute (oneOrNone rows)
  match row with
  | none => pure none
  | some row =>
    let record ← compute row.toRecord
    pure (some record)

/-- One page of the effects of a tenant. -/
def list (tenantId : Str) (status : Option EffectStatus) (limit offset : Int) :
    PostgresProgram (List EffectRecord) := do
  let rows ← execute (.selectPage tenantId status limit offset)
  let rows ← compute rows
  compute (rows.mapM IntentRow.toRecord)

/-- The reply of `receipt`, from its row. -/
def receiptReply (effectId : Str) (row : ReceiptRow) : Except Exc Items := do
  let metadata ← dictOfJson row.metadataJson
  return [(text "effect_id", .str effectId), (text "status", .str EffectStatus.succeeded.value),
    (text "contract", .str row.contractName), (text "contract_version", .str row.contractVersion),
    (text "downstream_key", .str row.downstreamKey), (text "metadata", .dict metadata),
    (text "recorded_at", .str row.createdAt.isoformat)]

/-- The receipt of a successful effect, for its own tenant. -/
def receipt (tenantId effectId : Str) : PostgresProgram (Option Items) := do
  let rows ← execute (.selectReceipt tenantId effectId)
  let row ← compute (oneOrNone rows)
  match row with
  | none => pure none
  | some row =>
    let reply ← compute (receiptReply effectId row)
    pure (some reply)

/-- An event as it is returned. -/
def storedEvent (row : EventRow) : Except Exc StoredEvent := do
  let data ← dictOfJson row.dataJson
  return ⟨row.effectId, row.sequence, row.eventType, row.version, row.at_, data⟩

/-- The event stream of an effect. -/
def events (effectId : Str) : PostgresProgram (List StoredEvent) := do
  let rows ← execute (.selectEvents effectId)
  compute (rows.mapM storedEvent)

/-- The program of a call. -/
def program (hashes : Hashes) (tenantKeyProvider : TenantKeyProvider) (c : TimedCall) :
    PostgresProgram StoreValue :=
  match c.call with
  | .reserve tenantId request contract => do
    let reservation ← reserve hashes tenantKeyProvider c.now c.uuid tenantId request contract
    pure (.reservation reservation)
  | .claimDue workerId now leaseFor limit => do
    let records ← claimDue workerId now leaseFor limit
    pure (.effects records)
  | .startAttempt effectId expectedVersion workerId => do
    let attemptId ← startAttempt c.now effectId expectedVersion workerId
    pure (.attemptId attemptId)
  | .transition effectId expectedVersion target data => do
    let record ← transition c.now c.uuid effectId expectedVersion target data
    pure (.effect record)
  | .get tenantId effectId => do
    let record ← get tenantId effectId
    pure (.found record)
  | .list tenantId status limit offset => do
    let records ← list tenantId status limit offset
    pure (.effects records)
  | .receipt tenantId effectId => do
    let receipt ← receipt tenantId effectId
    pure (.receipt receipt)
  | .events effectId => do
    let events ← events effectId
    pure (.events events)
  | .attemptCount effectId => do
    let count ← execute (.countAttempts effectId)
    pure (.number count)
  | .count => do
    let count ← execute .countIntents
    pure (.number count)

end PostgresStore

/-- The database, its JSONB columns, and the keys of the tenants. -/
structure PostgresStore where
  hashes : Hashes
  tenantKeyProvider : TenantKeyProvider
  jsonb : Jsonb
  tables : PostgresTables

/-- Serve a call while no other transaction is open: what raises is rolled back. -/
def PostgresStore.serve (c : TimedCall) (s : PostgresStore) : Except Exc StoreValue × PostgresStore :=
  match (postgres s.jsonb).alone (fun _ => false) (program s.hashes s.tenantKeyProvider c) [] s.tables with
  | some (.ok value, writes) => (.ok value, { s with tables := (postgres s.jsonb).view s.tables writes })
  | some (.error exc, _) => (.error exc, s)
  | none => (.error (.other (str "DeadlockDetected") []), s)

end EffectBroker
