import EffectBroker.System

/-!
# The simulated target

The target of the crash-window tests and its adapter, from `adapters/simulated.py`.  It
commits charges, deduplicates the retries of the classes that promise it, may lose a
response after the commit, and hides commits from probes until the settlement bound.
-/
namespace EffectBroker
open Python Concurrency

structure SimulatedCharge where
  externalId : Str
  downstreamKey : Str
  requestHash : Str
  amount : Value
  committedAt : Datetime

/-- `f"charge_{n:06d}"`. -/
def chargeIdOf (n : Nat) : Str := str "charge_" ++ zeroPadded 6 n

theorem chargeIdOf_injective : Function.Injective chargeIdOf := fun _ _ h =>
  zeroPadded_injective 6 (List.append_cancel_left h)

/-- The authoritative state.  The charges that are listed under a key exist under their
ids, and have that key. -/
structure SimulatedTarget where
  charges : Dict Str SimulatedCharge
  byDownstreamKey : Dict Str (List Str)
  nextChargeId : Nat
  loseNextResponseAfterCommit : Bool
  hideCommitsUntilSettled : Bool
  now : Datetime
  dispatchCount : Nat
  listed : ∀ key ids, byDownstreamKey.get? key = some ids → ∀ id ∈ ids,
    ∃ charge, charges.get? id = some charge ∧ charge.externalId = id ∧ charge.downstreamKey = key
  numbered : ∀ id charge, charges.get? id = some charge → ∃ n < nextChargeId, id = chargeIdOf n

/-- `arguments.get("amount")`, which is `None` where there is none. -/
def amountOf (request : EffectRequest) : Except Exc Value :=
  match request.arguments.items? with
  | some items => .ok ((items.get? (str "amount")).getD .none)
  | none => .error (.attributeError
    (str "'" ++ request.arguments.typeName ++ str "' object has no attribute 'get'"))

namespace SimulatedTarget

/-- A target that nothing was committed to. -/
def initial (now : Datetime) : SimulatedTarget where
  charges := .empty
  byDownstreamKey := .empty
  nextChargeId := 1
  loseNextResponseAfterCommit := false
  hideCommitsUntilSettled := false
  now := now
  dispatchCount := 0
  listed := fun _ _ h => nomatch h
  numbered := fun _ _ h => nomatch h

/-- The ids of the charges for a key. -/
def idsForKey (target : SimulatedTarget) (downstreamKey : Str) : List Str :=
  (target.byDownstreamKey.get? downstreamKey).getD []

def firstByDownstreamKey (target : SimulatedTarget) (downstreamKey : Str) : Option SimulatedCharge :=
  (target.idsForKey downstreamKey).head?.bind target.charges.get?

def chargesForKey (target : SimulatedTarget) (downstreamKey : Str) : List SimulatedCharge :=
  (target.idsForKey downstreamKey).filterMap target.charges.get?

theorem listed_of_mem (target : SimulatedTarget) {key id : Str} (h : id ∈ target.idsForKey key) :
    ∃ charge, target.charges.get? id = some charge ∧ charge.externalId = id ∧
      charge.downstreamKey = key := by
  unfold idsForKey at h
  cases hids : target.byDownstreamKey.get? key with
  | none =>
    rw [hids] at h
    cases h
  | some ids =>
    rw [hids] at h
    exact target.listed key ids hids id h

/-- The charge id is taken, and no charge is made. -/
def skipChargeId (target : SimulatedTarget) : SimulatedTarget :=
  { target with
    nextChargeId := target.nextChargeId + 1
    numbered := fun id charge h => by
      obtain ⟨n, hn, hid⟩ := target.numbered id charge h
      exact ⟨n, by omega, hid⟩ }

section
variable (target : SimulatedTarget) {charge : SimulatedCharge}
  (hid : charge.externalId = chargeIdOf target.nextChargeId)
include hid

theorem listed_set {key : Str} {ids : List Str}
    (hids : (target.byDownstreamKey.set charge.downstreamKey
      (target.idsForKey charge.downstreamKey ++ [charge.externalId])).get? key = some ids)
    {id : Str} (hm : id ∈ ids) :
    ∃ charge', (target.charges.set charge.externalId charge).get? id = some charge' ∧
      charge'.externalId = id ∧ charge'.downstreamKey = key := by
  rw [Dict.get?_set]
  by_cases hnew : id = charge.externalId
  · rw [if_pos hnew]
    rw [Dict.get?_set] at hids
    split at hids
    · rename_i hkey
      exact ⟨charge, rfl, hnew.symm, hkey.symm⟩
    · -- the id is not listed under other keys
      obtain ⟨old, hold, -⟩ := target.listed key ids hids id hm
      obtain ⟨n, hn, hn'⟩ := target.numbered id old hold
      have heq := chargeIdOf_injective (hn'.symm.trans (hnew.trans hid))
      omega
  · rw [if_neg hnew]
    rw [Dict.get?_set] at hids
    split at hids
    · rename_i hkey
      cases hids
      rcases List.mem_append.mp hm with hm | hm
      · exact hkey ▸ target.listed_of_mem hm
      · exact absurd (List.mem_singleton.mp hm) hnew
    · exact target.listed key ids hids id hm

theorem numbered_set {id : Str} {charge' : SimulatedCharge}
    (h : (target.charges.set charge.externalId charge).get? id = some charge') :
    ∃ n < target.nextChargeId + 1, id = chargeIdOf n := by
  rw [Dict.get?_set] at h
  split at h
  · rename_i heq
    exact ⟨target.nextChargeId, by omega, heq.trans hid⟩
  · obtain ⟨n, hn, hid'⟩ := target.numbered id charge' h
    exact ⟨n, by omega, hid'⟩

end

/-- The target with one more charge, under the next id. -/
def addCharge (target : SimulatedTarget) (charge : SimulatedCharge)
    (hid : charge.externalId = chargeIdOf target.nextChargeId) : SimulatedTarget :=
  { target with
    charges := target.charges.set charge.externalId charge
    byDownstreamKey := target.byDownstreamKey.set charge.downstreamKey
      (target.idsForKey charge.downstreamKey ++ [charge.externalId])
    nextChargeId := target.nextChargeId + 1
    listed := fun _ _ hids _ hm => target.listed_set hid hids hm
    numbered := fun _ _ h => target.numbered_set hid h }

/-- A new charge; reading the amount may raise after the id is taken. -/
def charge (target : SimulatedTarget) (effect : EffectRecord) :
    Except Exc SimulatedCharge × SimulatedTarget :=
  match amountOf effect.request with
  | .error exc => (.error exc, target.skipChargeId)
  | .ok amount =>
    let charge : SimulatedCharge := ⟨chargeIdOf target.nextChargeId, effect.downstreamKey,
      effect.requestHash, amount, target.now⟩
    (.ok charge, target.addCharge charge rfl)

def commit (target : SimulatedTarget) (effect : EffectRecord) (dedupe : Bool) :
    Except Exc SimulatedCharge × SimulatedTarget :=
  let target := { target with dispatchCount := target.dispatchCount + 1 }
  match target.firstByDownstreamKey effect.downstreamKey with
  | some existing =>
    if existing.requestHash ≠ effect.requestHash then
      (.error (.adapterError (str "AdapterError") (str "target rejected payload drift for reused key")),
        target)
    else if dedupe then (.ok existing, target)
    else target.charge effect
  | none => target.charge effect

end SimulatedTarget

/-! ## The adapter

It has no state but its target. -/

namespace SimulatedAdapter

def dispatch (target : SimulatedTarget) (effect : EffectRecord) :
    Except Exc DispatchResult × SimulatedTarget :=
  let dedupe := effect.contract.safety = .idempotent ∨ effect.contract.safety = .transactional
  match target.commit effect dedupe with
  | (.error exc, target) => (.error exc, target)
  | (.ok charge, target) =>
    if target.loseNextResponseAfterCommit then
      (.error (.ambiguousDispatch (str "response lost after target commit")),
        { target with loseNextResponseAfterCommit := false })
    else
      (.ok ⟨some charge.externalId, [(text "external_id", .str charge.externalId)], true⟩, target)

/-- `_settlement_elapsed`. -/
def settlementElapsed (target : SimulatedTarget) (effect : EffectRecord) : Except Exc Bool :=
  match effect.contract.settlementBound with
  | none => .ok false
  | some bound =>
    match effect.createdAt.add bound with
    | none => .error .overflowError
    | some settled => .ok (decide (target.now ≥ settled))

def probe (target : SimulatedTarget) (effect : EffectRecord) : Except Exc ProbeResult :=
  if effect.contract.safety = .unsafeClass then
    .ok { status := .unknown,
          evidence := [(text "reason", text "unsafe target has no authoritative lookup")] }
  else do
    let charge := target.firstByDownstreamKey effect.downstreamKey
    let settled ← settlementElapsed target effect
    match charge, !target.hideCommitsUntilSettled || settled with
    | some charge, true =>
      return { status := .committed
               externalId := some charge.externalId
               output := some [(text "external_id", .str charge.externalId)]
               evidence := [(text "downstream_key", .str effect.downstreamKey)] }
    | _, _ =>
      if effect.contract.safety = .reconcilable ∧ settled then
        return { status := .notCommitted, evidence := [(text "settlement_bound_elapsed", .bool true)] }
      else
        return { status := .unknown, evidence := [(text "settlement_bound_elapsed", .bool settled)] }

end SimulatedAdapter

/-- What tests set on the target between calls. -/
structure TargetSwitches where
  loseNextResponseAfterCommit : Bool
  hideCommitsUntilSettled : Bool
  now : Datetime

/-- `SimulatedAdapter`s over one target, whose switches and clock are set at any time. -/
def simulatedAdapters : Adapters SimulatedTarget TargetSwitches where
  adapterFor _ _ target := (.ok (), target)
  dispatch _ effect _ target :=
    let (answer, target) := SimulatedAdapter.dispatch target effect
    (answer.map DispatchResult.read, target)
  probe _ effect target := ((SimulatedAdapter.probe target effect).map ProbeResult.read, target)
  disturb switches target := { target with
    loseNextResponseAfterCommit := switches.loseNextResponseAfterCommit
    hideCommitsUntilSettled := switches.hideCommitsUntilSettled
    now := switches.now }

/-! ## What a probe shows -/

namespace SimulatedAdapter
variable {target : SimulatedTarget} {effect : EffectRecord} {result : ProbeResult}

theorem settlementElapsed_eq_true (h : settlementElapsed target effect = .ok true) :
    ∃ bound settled, effect.contract.settlementBound = some bound ∧
      effect.createdAt.add bound = some settled ∧ settled ≤ target.now := by
  unfold settlementElapsed at h
  split at h
  · cases h
  · rename_i bound hbound
    split at h
    · cases h
    · rename_i settled hadd
      exact ⟨bound, settled, hbound, hadd, of_decide_eq_true (Except.ok.inj h)⟩

/-- A probe finds nothing only for a reconcilable effect without a charge, once the bound
has elapsed since the reservation. -/
theorem probe_notCommitted (h : probe target effect = .ok result)
    (hs : result.status = .notCommitted) : effect.contract.safety = .reconcilable ∧
      target.firstByDownstreamKey effect.downstreamKey = none ∧
      ∃ bound settled, effect.contract.settlementBound = some bound ∧
        effect.createdAt.add bound = some settled ∧ settled ≤ target.now := by
  unfold probe at h
  split at h
  · cases h
    cases hs
  · obtain ⟨settled, hsettled, h⟩ := bind_eq_ok.mp h
    split at h
    · cases h
      cases hs
    · rename_i hvisible
      split at h
      · rename_i hreconcilable
        obtain ⟨hsafety, rfl⟩ := hreconcilable
        refine ⟨hsafety, ?_, settlementElapsed_eq_true hsettled⟩
        cases hcharge : target.firstByDownstreamKey effect.downstreamKey with
        | none => rfl
        | some charge => exact absurd (Bool.or_true _) (hvisible charge hcharge)
      · cases h
        cases hs

/-- A probe finds a charge only where the target has it. -/
theorem probe_committed (h : probe target effect = .ok result) (hs : result.status = .committed) :
    ∃ charge, target.firstByDownstreamKey effect.downstreamKey = some charge ∧
      result.externalId = some charge.externalId := by
  unfold probe at h
  split at h
  · cases h
    cases hs
  · obtain ⟨settled, hsettled, h⟩ := bind_eq_ok.mp h
    split at h
    · rename_i charge hcharge _
      cases h
      exact ⟨charge, hcharge, rfl⟩
    · split at h <;> cases h <;> cases hs

end SimulatedAdapter
end EffectBroker
