import EffectBroker.Models

/-!
# Exceptions

The domain errors of `errors.py`, the built-in exceptions the broker's own code can
raise, and any other exception an adapter may raise.
-/
namespace EffectBroker
open Python

/-- What is wrong with a contract, or with the lookup of one. -/
inductive ContractFault where
  /-- `{name}: retry_limit must be >= 0`. -/
  | negativeRetryLimit (name : Str)
  /-- `{name}: idempotent contracts require a positive key_retention (…)`. -/
  | missingKeyRetention (name : Str)
  /-- `{name}: reconcilable contracts require a settlement_bound (…)`. -/
  | missingSettlementBound (name : Str)
  /-- `{name}: unsafe contracts must have retry_limit=0 (…)`. -/
  | unsafeRetries (name : Str)
  /-- `no contract registered for tool {tool!r}`. -/
  | unregistered (tool : Str)
  /-- `{name}: missing or unknown 'safety'`. -/
  | unknownSafety (name : Str)
deriving DecidableEq

/-- An `Exception`. -/
inductive Exc where
  | canonicalizationError (message : Str)
  | contractError (fault : ContractFault)
  | payloadConflict (operationKey existingHash incomingHash : Str)
  | invalidTransition (current target : EffectStatus)
  | versionConflict (message : Str)
  | unknownEffect (effectId : Str)
  /-- `AdapterError` or a subclass of it, named `className`. -/
  | adapterError (className : Str) (message : Str)
  /-- Raised by `AmbiguousDispatchError` and by nothing else in the broker. -/
  | ambiguousDispatch (message : Str)
  | runtimeError (message : Str)
  | overflowError
  | unicodeEncodeError
  | typeError (message : Str)
  | attributeError (message : Str)
  /-- Any other exception class. -/
  | other (className : Str) (message : Str)
deriving DecidableEq

namespace Exc

/-- `type(exc).__name__`. -/
def className : Exc → Str
  | canonicalizationError _ => str "CanonicalizationError"
  | contractError _ => str "ContractError"
  | payloadConflict _ _ _ => str "PayloadConflictError"
  | invalidTransition _ _ => str "InvalidTransitionError"
  | versionConflict _ => str "VersionConflictError"
  | unknownEffect _ => str "UnknownEffectError"
  | adapterError name _ => name
  | ambiguousDispatch _ => str "AmbiguousDispatchError"
  | runtimeError _ => str "RuntimeError"
  | overflowError => str "OverflowError"
  | unicodeEncodeError => str "UnicodeEncodeError"
  | typeError _ => str "TypeError"
  | attributeError _ => str "AttributeError"
  | other name _ => name

/-- `isinstance(exc, AdapterError)`: a definite, proven non-commit. -/
def isAdapterError : Exc → Bool
  | adapterError _ _ => true
  | _ => false

/-- `isinstance(exc, VersionConflictError)`. -/
def isVersionConflict : Exc → Bool
  | versionConflict _ => true
  | _ => false

end Exc

theorem ok_bind {α β : Type} (a : α) (f : α → Except Exc β) : (Except.ok a >>= f) = f a := rfl

theorem exists_of_isOk {ε α : Type} {x : Except ε α} (h : x.isOk = true) : ∃ a, x = .ok a := by
  cases x with
  | ok a => exact ⟨a, rfl⟩
  | error e => cases h

/-- A computation that returns has returned at each step. -/
theorem bind_eq_ok {α β : Type} {x : Except Exc α} {f : α → Except Exc β} {b : β} :
    (x >>= f) = .ok b ↔ ∃ a, x = .ok a ∧ f a = .ok b := by
  cases x with
  | error exc => exact ⟨fun h => (nomatch h), fun ⟨_, h, _⟩ => nomatch h⟩
  | ok a => exact ⟨fun h => ⟨a, rfl, h⟩, fun ⟨_, ha, hb⟩ => by cases ha; exact hb⟩

end EffectBroker
