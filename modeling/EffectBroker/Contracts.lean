import EffectBroker.Errors
import EffectBroker.OrderedDict

/-!
# Tool contracts

`validate_contract` and the registry of contracts by tool.
-/
namespace EffectBroker
open Python

/-- Return the contract unchanged if it is valid, else raise `ContractError`. -/
def validateContract (contract : EffectContract) : Except Exc EffectContract :=
  if contract.retryLimit < 0 then .error (.contractError (.negativeRetryLimit contract.name))
  else
    match contract.safety with
    | .idempotent =>
      match contract.keyRetention with
      | some retention =>
        if retention ≤ Timedelta.zero then
          .error (.contractError (.missingKeyRetention contract.name))
        else .ok contract
      | none => .error (.contractError (.missingKeyRetention contract.name))
    | .reconcilable =>
      match contract.settlementBound with
      | some bound =>
        if bound < Timedelta.zero then
          .error (.contractError (.missingSettlementBound contract.name))
        else .ok contract
      | none => .error (.contractError (.missingSettlementBound contract.name))
    | .unsafeClass =>
      if contract.retryLimit ≠ 0 then .error (.contractError (.unsafeRetries contract.name))
      else .ok contract
    | .transactional => .ok contract

/-- `validate_contract` accepts the contract. -/
def EffectContract.Valid (contract : EffectContract) : Prop := validateContract contract = .ok contract

instance (contract : EffectContract) : Decidable contract.Valid := by
  unfold EffectContract.Valid
  exact match validateContract contract with
    | .ok c => if h : c = contract then isTrue (by rw [h]) else isFalse (by simpa using h)
    | .error _ => isFalse (by simp)

/-- A valid unsafe contract is never retried. -/
theorem EffectContract.Valid.unsafe_retryLimit {contract : EffectContract} (h : contract.Valid)
    (hs : contract.safety = .unsafeClass) : contract.retryLimit = 0 := by
  unfold Valid validateContract at h
  rw [hs] at h
  split at h
  · cases h
  · simp only at h
    split at h
    · cases h
    · rename_i hz
      exact Classical.not_not.mp hz

/-- The contracts by tool, loaded once at startup. -/
structure ContractRegistry where
  byTool : Dict Str EffectContract

/-- The contract of a tool. -/
def ContractRegistry.get (registry : ContractRegistry) (tool : Str) : Except Exc EffectContract :=
  match registry.byTool.get? tool with
  | some contract => .ok contract
  | none => .error (.contractError (.unregistered tool))

end EffectBroker
