import EffectBroker.Errors

/-!
# The pure effect state machine

The transition graph `_ALLOWED` and the routing of unknown outcomes.
-/
namespace EffectBroker

/-- `_ALLOWED`: the statuses reachable from each status. -/
def allowed : EffectStatus → List EffectStatus
  | .prepared => [.dispatching, .cancelled]
  | .dispatching => [.succeeded, .failedFinal, .retryable, .outcomeUnknown]
  | .retryable => [.dispatching, .failedFinal, .cancelled]
  | .outcomeUnknown => [.dispatching, .reconciling, .manualReview]
  | .reconciling => [.succeeded, .prepared, .manualReview, .failedFinal]
  | .manualReview => [.succeeded, .failedFinal, .compensated]
  | .succeeded => []
  | .failedFinal => []
  | .compensated => []
  | .cancelled => []

def isTerminal (status : EffectStatus) : Bool := terminalStatuses.contains status

def isAllowed (current target : EffectStatus) : Bool := (allowed current).contains target

/-- Raise `InvalidTransitionError` unless the transition is allowed. -/
def assertTransition (current target : EffectStatus) : Except Exc Unit :=
  if isAllowed current target then .ok () else .error (.invalidTransition current target)

/-- Where an `outcomeUnknown` effect goes next, decided purely by class. -/
def routeUnknown (safety : SafetyClass) : EffectStatus :=
  match safety with
  | .idempotent => .dispatching
  | .reconcilable | .transactional => .reconciling
  | .unsafeClass => .manualReview

/-- A status a worker may claim: `claim_due` and `cancel` accept no other. -/
def EffectStatus.isClaimable : EffectStatus → Bool
  | .prepared | .retryable => true
  | _ => false

/-- A status in which some caller is between its first transition and its last. -/
def EffectStatus.isHeld : EffectStatus → Bool
  | .dispatching | .reconciling => true
  | _ => false

theorem EffectStatus.isClaimable_iff {status : EffectStatus} :
    status.isClaimable = true ↔ status = .prepared ∨ status = .retryable := by
  cases status <;> decide

/-- Exactly the terminal statuses have no way out. -/
theorem isTerminal_iff (status : EffectStatus) :
    isTerminal status = true ↔ allowed status = [] := by
  cases status <;> decide

/-- No status is its own successor. -/
theorem not_isAllowed_self (status : EffectStatus) : isAllowed status status = false := by
  cases status <;> decide

theorem assertTransition_ok {current target : EffectStatus} :
    assertTransition current target = .ok () ↔ isAllowed current target = true := by
  unfold assertTransition
  split <;> simp_all

end EffectBroker
