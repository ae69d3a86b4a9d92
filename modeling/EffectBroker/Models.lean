import EffectBroker.PythonTime
import EffectBroker.PythonValue

/-!
# Domain vocabulary

The records of `models.py`: what a caller asks for, the pinned contract, the
persisted state of one effect, and what adapters report.
-/
namespace EffectBroker
open Python

/-- How much the downstream target can prove about a committed effect. -/
inductive SafetyClass where
  | transactional
  | idempotent
  | reconcilable
  | unsafeClass
deriving DecidableEq

/-- The text stored for a safety class. -/
def SafetyClass.value : SafetyClass → Str
  | .transactional => str "transactional"
  | .idempotent => str "idempotent"
  | .reconcilable => str "reconcilable"
  | .unsafeClass => str "unsafe"

/-- `SafetyClass(text)`; `none` is `ValueError`. -/
def SafetyClass.ofValue? (text : Str) : Option SafetyClass :=
  [SafetyClass.transactional, .idempotent, .reconcilable, .unsafeClass].find? (·.value == text)

theorem SafetyClass.ofValue?_value (safety : SafetyClass) :
    SafetyClass.ofValue? safety.value = some safety := by
  cases safety <;> decide

/-- Where an effect is in its life. -/
inductive EffectStatus where
  | prepared
  | cancelled
  | dispatching
  | retryable
  | outcomeUnknown
  | reconciling
  | succeeded
  | failedFinal
  | manualReview
  | compensated
deriving DecidableEq

/-- The text stored for a status. -/
def EffectStatus.value : EffectStatus → Str
  | .prepared => str "prepared"
  | .cancelled => str "cancelled"
  | .dispatching => str "dispatching"
  | .retryable => str "retryable"
  | .outcomeUnknown => str "outcome_unknown"
  | .reconciling => str "reconciling"
  | .succeeded => str "succeeded"
  | .failedFinal => str "failed_final"
  | .manualReview => str "manual_review"
  | .compensated => str "compensated"

/-- Every status. -/
def EffectStatus.all : List EffectStatus :=
  [.prepared, .cancelled, .dispatching, .retryable, .outcomeUnknown, .reconciling, .succeeded,
    .failedFinal, .manualReview, .compensated]

/-- `EffectStatus(text)`; `none` is `ValueError`. -/
def EffectStatus.ofValue? (text : Str) : Option EffectStatus :=
  EffectStatus.all.find? (fun status => status.value == text)

theorem EffectStatus.ofValue?_value (status : EffectStatus) :
    EffectStatus.ofValue? status.value = some status := by
  cases status <;> decide

/-- Distinct statuses are stored as distinct texts. -/
theorem EffectStatus.value_injective : Function.Injective EffectStatus.value := by
  intro a b h
  have := EffectStatus.ofValue?_value a
  rw [h, EffectStatus.ofValue?_value] at this
  exact (Option.some.inj this).symm

/-- Statuses from which no automatic transition is allowed. -/
def terminalStatuses : List EffectStatus := [.cancelled, .succeeded, .failedFinal, .compensated]

/-- What a caller asks the broker to make happen. -/
structure EffectRequest where
  operationKey : Str
  tool : Str
  arguments : Value
  requestedBy : Str
  traceId : Option Str := none

/-- The pinned, versioned promise a target makes for one tool. -/
structure EffectContract where
  name : Str
  version : Str
  safety : SafetyClass
  retryLimit : Int
  keyRetention : Option Timedelta := none
  settlementBound : Option Timedelta := none
deriving DecidableEq

/-- The full persisted state of one effect. -/
structure EffectRecord where
  effectId : Str
  tenantId : Str
  request : EffectRequest
  requestHash : Str
  downstreamKey : Str
  contract : EffectContract
  status : EffectStatus
  version : Nat
  createdAt : Datetime
  updatedAt : Datetime

/-- The two records are of one effect: only status, version and update time differ. -/
def SameEffect (a b : EffectRecord) : Prop :=
  b = { a with status := b.status, version := b.version, updatedAt := b.updatedAt }

theorem SameEffect.refl (a : EffectRecord) : SameEffect a a := rfl

theorem SameEffect.trans {a b c : EffectRecord} (hab : SameEffect a b) (hbc : SameEffect b c) :
    SameEffect a c := by
  unfold SameEffect at *
  rw [hbc, hab]

theorem SameEffect.contract {a b : EffectRecord} (h : SameEffect a b) : b.contract = a.contract := by
  rw [h]

theorem SameEffect.createdAt {a b : EffectRecord} (h : SameEffect a b) :
    b.createdAt = a.createdAt := by
  rw [h]

/-- The outcome of `submit`. -/
structure Reservation where
  effect : EffectRecord
  created : Bool
  replayed : Bool

/-- What an adapter reports after attempting the target call. -/
structure DispatchResult where
  externalId : Option Str
  output : Items
  committed : Bool

/-- What reconciliation found. -/
inductive ProbeStatus where
  | committed
  | notCommitted
  | unknown
deriving DecidableEq

/-- The text of a probe status. -/
def ProbeStatus.value : ProbeStatus → Str
  | .committed => str "committed"
  | .notCommitted => str "not_committed"
  | .unknown => str "unknown"

/-- Evidence from reconciliation. -/
structure ProbeResult where
  status : ProbeStatus
  externalId : Option Str := none
  output : Option Items := none
  evidence : Items := []

/-- A `str | None` as a value. -/
def optionalText : Option Str → Value
  | none => .none
  | some s => .str s

end EffectBroker
