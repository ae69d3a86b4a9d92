import EffectBroker.Canonical
import EffectBroker.Contracts
import EffectBroker.DurationSeconds
import EffectBroker.JsonText
import EffectBroker.StoreCalls

/-!
# Rows of the Postgres ledger

The columns of `effect_intents` and of the other tables, and how records are written to
them and read from them.  The database returns the values of columns as they were
written.
-/
namespace EffectBroker
open Python

/-- A row of `effect_intents`. -/
structure IntentRow where
  effectId : Str
  tenantId : Str
  operationKey : Str
  tool : Str
  argumentsJson : Value
  requestedBy : Str
  traceId : Option Str
  requestHash : Str
  downstreamKey : Str
  contractName : Str
  contractVersion : Str
  safetyClass : Str
  retryLimit : Int
  keyRetentionSeconds : Option Int
  settlementBoundSeconds : Option Int
  status : Str
  version : Nat
  createdAt : Datetime
  updatedAt : Datetime
  workerId : Option Str
  leaseUntil : Option Datetime

/-- A row of `effect_events`. -/
structure EventRow where
  effectId : Str
  sequence : Nat
  eventType : Str
  version : Nat
  at_ : Datetime
  dataJson : Value

/-- A row of `effect_receipts`. -/
structure ReceiptRow where
  receiptId : Str
  effectId : Str
  externalId : Value
  contractName : Str
  contractVersion : Str
  downstreamKey : Str
  metadataJson : Value
  createdAt : Datetime

/-- `_json_value`. -/
def jsonValue (value : Value) : Except Exc Value := do
  let text ← canonicalJson value
  match loads text with
  | some value => .ok value
  | none => .error (.other (str "JSONDecodeError") [])

/-- `_duration_seconds`: whole seconds, truncated. -/
def durationSeconds (value : Option Timedelta) : Option Int :=
  value.map fun d => Binary64.truncate d.totalSeconds

/-- `_seconds_to_duration`. -/
def secondsToDuration : Option Int → Except Exc (Option Timedelta)
  | none => .ok none
  | some seconds =>
    match Timedelta.ofIntSeconds seconds with
    | some d => .ok (some d)
    | none => .error .overflowError

/-- The columns of a record, with its payload decoded, that nobody has claimed. -/
def intentColumns (record : EffectRecord) (argumentsJson : Value) : IntentRow where
  effectId := record.effectId
  tenantId := record.tenantId
  operationKey := record.request.operationKey
  tool := record.request.tool
  argumentsJson
  requestedBy := record.request.requestedBy
  traceId := record.request.traceId
  requestHash := record.requestHash
  downstreamKey := record.downstreamKey
  contractName := record.contract.name
  contractVersion := record.contract.version
  safetyClass := record.contract.safety.value
  retryLimit := record.contract.retryLimit
  keyRetentionSeconds := durationSeconds record.contract.keyRetention
  settlementBoundSeconds := durationSeconds record.contract.settlementBound
  status := record.status.value
  version := record.version
  createdAt := record.createdAt
  updatedAt := record.updatedAt
  workerId := none
  leaseUntil := none

/-- `_record_values`. -/
def recordValues (record : EffectRecord) : Except Exc IntentRow := do
  let argumentsJson ← jsonValue record.request.arguments
  return intentColumns record argumentsJson

/-- `dict(value)` of a decoded JSON value; a payload is an object. -/
def dictOfJson : Value → Except Exc Items
  | .dict items => .ok items
  | _ => .error (.typeError (str "cannot convert dictionary update sequence"))

/-- `SafetyClass(text)`. -/
def safetyOfText (text : Str) : Except Exc SafetyClass :=
  match SafetyClass.ofValue? text with
  | some safety => .ok safety
  | none => .error (.other (str "ValueError") text)

/-- `EffectStatus(text)`. -/
def statusOfText (text : Str) : Except Exc EffectStatus :=
  match EffectStatus.ofValue? text with
  | some status => .ok status
  | none => .error (.other (str "ValueError") text)

/-- `_row_to_record`. -/
def IntentRow.toRecord (row : IntentRow) : Except Exc EffectRecord := do
  let arguments ← dictOfJson row.argumentsJson
  let safety ← safetyOfText row.safetyClass
  let keyRetention ← secondsToDuration row.keyRetentionSeconds
  let settlementBound ← secondsToDuration row.settlementBoundSeconds
  let status ← statusOfText row.status
  return {
    effectId := row.effectId
    tenantId := row.tenantId
    request := {
      operationKey := row.operationKey
      tool := row.tool
      arguments := .dict arguments
      requestedBy := row.requestedBy
      traceId := row.traceId }
    requestHash := row.requestHash
    downstreamKey := row.downstreamKey
    contract := {
      name := row.contractName
      version := row.contractVersion
      safety
      retryLimit := row.retryLimit
      keyRetention
      settlementBound }
    status
    version := row.version
    createdAt := row.createdAt
    updatedAt := row.updatedAt }

/-! ## What a record is read back as -/

/-- The durations of a contract that the columns keep. -/
def EffectContract.IsWhole (contract : EffectContract) : Prop :=
  (∀ d ∈ contract.keyRetention, d.IsWhole) ∧ ∀ d ∈ contract.settlementBound, d.IsWhole

theorem secondsToDuration_iff {value : Option Timedelta} :
    secondsToDuration (durationSeconds value) = .ok value ↔ ∀ d ∈ value, d.IsWhole := by
  cases value with
  | none => exact ⟨fun _ d hd => (nomatch hd), fun _ => rfl⟩
  | some d =>
    constructor
    · intro h d' hd'
      cases hd'
      simp only [durationSeconds, Option.map_some, secondsToDuration] at h
      split at h
      · rename_i back hback
        cases h
        exact Timedelta.isWhole_of_ofIntSeconds hback
      · cases h
    · intro h
      have hback := (h d rfl).ofIntSeconds
      simp only [durationSeconds, Option.map_some, secondsToDuration, hback]

theorem safetyOfText_value (safety : SafetyClass) : safetyOfText safety.value = .ok safety := by
  rw [safetyOfText, SafetyClass.ofValue?_value]

theorem statusOfText_value (status : EffectStatus) : statusOfText status.value = .ok status := by
  rw [statusOfText, EffectStatus.ofValue?_value]

/-- A record as its columns are read: the payload decoded, and the durations in whole
seconds, if a `timedelta` can hold them. -/
def readBack (record : EffectRecord) (arguments : Value) : Except Exc EffectRecord := do
  let keyRetention ← secondsToDuration (durationSeconds record.contract.keyRetention)
  let settlementBound ← secondsToDuration (durationSeconds record.contract.settlementBound)
  return { record with
    request := { record.request with arguments }
    contract := { record.contract with keyRetention, settlementBound } }

theorem toRecord_intentColumns (record : EffectRecord) (items : Items) :
    (intentColumns record (.dict items)).toRecord = readBack record (.dict items) := by
  unfold IntentRow.toRecord
  simp only [intentColumns, dictOfJson, safetyOfText_value, statusOfText_value]
  rfl

/-- A record is read back with its contract exactly if the durations are whole. -/
theorem readBack_contract {record : EffectRecord} {arguments : Value} :
    (readBack record arguments).map EffectRecord.contract = .ok record.contract ↔
      record.contract.IsWhole := by
  unfold readBack
  constructor
  · intro h
    cases hretention : secondsToDuration (durationSeconds record.contract.keyRetention) with
    | error exc =>
      rw [hretention] at h
      cases h
    | ok keyRetention =>
      cases hbound : secondsToDuration (durationSeconds record.contract.settlementBound) with
      | error exc =>
        rw [hretention, hbound] at h
        cases h
      | ok settlementBound =>
        rw [hretention, hbound] at h
        have hcontract : { record.contract with keyRetention, settlementBound } = record.contract :=
          Except.ok.inj h
        have h₁ := congrArg EffectContract.keyRetention hcontract
        have h₂ := congrArg EffectContract.settlementBound hcontract
        simp only at h₁ h₂
        rw [h₁] at hretention
        rw [h₂] at hbound
        exact ⟨secondsToDuration_iff.mp hretention, secondsToDuration_iff.mp hbound⟩
  · intro h
    rw [secondsToDuration_iff.mpr h.1, secondsToDuration_iff.mpr h.2]
    rfl

end EffectBroker
