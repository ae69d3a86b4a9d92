import EffectBroker.CanonicalJson
import EffectBroker.ContractLoading
import EffectBroker.PostgresRows
import EffectBroker.System

/-!
# The pinned contract in the Postgres ledger

The duration columns hold whole seconds.  A contract whose durations are whole survives
the ledger; every other one is read back as a different contract.
-/
namespace EffectBroker
open Python

section
variable {hashes : Hashes} {tenantKeyProvider : TenantKeyProvider} {now : Datetime}
  {uuid tenantId : Str} {request : EffectRequest} {contract : EffectContract}
  {record : EffectRecord}

theorem jsonValue_ok {value : Value} {json : Str} (hwf : value.WellFormed)
    (h : dumps value = some json) : jsonValue value = .ok (Python.normalize value) := by
  refine bind_eq_ok.mpr ⟨json, canonicalJson_eq_ok.mpr h, ?_⟩
  rw [loads_dumps hwf h]

theorem recordValues_ok {json : Str} (hwf : record.request.arguments.WellFormed)
    (h : dumps record.request.arguments = some json) :
    recordValues record = .ok (intentColumns record (Python.normalize record.request.arguments)) := by
  rw [recordValues, jsonValue_ok hwf h]
  rfl

/-- A record is read back with the contract that was pinned: it is as valid as it was, and
its settlement bound is no shorter. -/
structure Survives (contract : EffectContract) (read : Except Exc EffectRecord) : Prop where
  same : read.map EffectRecord.contract = .ok contract
  valid : ∀ back, read = .ok back → back.contract.Valid
  bound : ∀ back, read = .ok back → ∀ declared ∈ contract.settlementBound,
    ∃ reloaded ∈ back.contract.settlementBound, declared ≤ reloaded

theorem survives_iff {read : Except Exc EffectRecord} (hvalid : contract.Valid) :
    Survives contract read ↔ read.map EffectRecord.contract = .ok contract := by
  refine ⟨Survives.same, fun h => ⟨h, fun back hback => ?_, fun back hback declared hd => ?_⟩⟩ <;>
    rw [hback] at h <;> have hcontract : back.contract = contract := Except.ok.inj h
  · rw [hcontract]
    exact hvalid
  · rw [hcontract]
    exact ⟨declared, hd, le_rfl⟩

/-- **The pinned contract survives the Postgres ledger exactly if its durations are whole
seconds.** -/
theorem pinned_contract_iff {conversions : Conversions} {name : Str} {data items : Items}
    (hload : contractFromMapping conversions name data = .ok contract)
    (hargs : request.arguments = .dict items) (hwf : (Value.dict items).WellFormed)
    (hnew : newRecord hashes tenantKeyProvider now uuid tenantId request contract = .ok record) :
    Survives contract (recordValues record >>= IntentRow.toRecord) ↔ contract.IsWhole := by
  rw [survives_iff (contractFromMapping_valid hload)]
  obtain ⟨digest, tenantKey, key, hdigest, -, -, rfl⟩ := newRecord_ok hnew
  obtain ⟨json, hjson⟩ := dumps_of_requestHash hdigest
  rw [← hargs] at hwf
  rw [recordValues_ok hwf hjson]
  show ((intentColumns _ (Python.normalize request.arguments)).toRecord.map EffectRecord.contract = _) ↔ _
  rw [hargs, Python.normalize, toRecord_intentColumns]
  exact readBack_contract

end

/-- A contract with a retention of one day. -/
def wholeContract : EffectContract where
  name := str "charge"
  version := str "v1"
  safety := .idempotent
  retryLimit := 0
  keyRetention := some oneDay

theorem sampleArguments_wellFormed : (Value.dict [(text "amount", .int 5)]).WellFormed :=
  ⟨List.nodup_singleton _, trivial, trivial⟩

/-- The record that a durable store builds for the sample request. -/
def newSample (contract : EffectContract) : EffectRecord :=
  { sampleEffect contract .prepared 0 with effectId := str "eff_1" }

theorem pinned_contract_iff_sample :
    (Survives wholeContract (recordValues (newSample wholeContract) >>= IntentRow.toRecord) ↔
      wholeContract.IsWhole) ∧ wholeContract.IsWhole := by
  have hload : contractFromMapping (sampleConversions []) (str "charge")
      [(text "safety", text "idempotent"), (text "key_retention_seconds", .int 86400)] =
      .ok wholeContract := by decide +kernel
  have hnew : newRecord sampleHashes sampleKeys (sampleTime 0) (str "1") sampleTenant sampleRequest
      wholeContract = .ok (newSample wholeContract) := rfl
  refine ⟨pinned_contract_iff hload rfl sampleArguments_wellFormed hnew, ?_, ?_⟩
  · intro d hd
    cases hd
    decide
  · exact fun d hd => nomatch hd

/-- A contract with a settlement bound. -/
def boundContract (bound : Timedelta) : EffectContract where
  name := str "charge"
  version := str "v1"
  safety := .reconcilable
  retryLimit := 0
  settlementBound := some bound

def halfSecond : Timedelta := ⟨500000, by decide, by decide⟩

/-- A settlement bound of half a second is read back as zero. -/
theorem settlement_bound_shortened :
    contractFromMapping (sampleConversions []) (str "charge") [(text "safety", text "reconcilable"),
        (text "settlement_bound_seconds", .float (.finite (str "0.5")))] =
      .ok (boundContract halfSecond) ∧
    newRecord sampleHashes sampleKeys (sampleTime 0) (str "1") sampleTenant sampleRequest
      (boundContract halfSecond) = .ok (newSample (boundContract halfSecond)) ∧
    (recordValues (newSample (boundContract halfSecond)) >>= IntentRow.toRecord).map
      EffectRecord.contract = .ok (boundContract .zero) ∧
    Timedelta.zero < halfSecond := by
  have hseconds : durationSeconds (some halfSecond) = some 0 := by decide +kernel
  have hzero : secondsToDuration (some 0) = .ok (some .zero) := rfl
  refine ⟨by decide +kernel, rfl, ?_, by decide⟩
  rw [recordValues_ok sampleArguments_wellFormed rfl]
  show (intentColumns (newSample (boundContract halfSecond))
    (.dict [(text "amount", .int 5)])).toRecord.map EffectRecord.contract = _
  rw [toRecord_intentColumns, readBack]
  simp only [newSample, sampleEffect, boundContract, hseconds, hzero]
  rfl

end EffectBroker
