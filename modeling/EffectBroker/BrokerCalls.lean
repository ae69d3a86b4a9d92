import EffectBroker.SoloRun
import EffectBroker.StoreCalls
import EffectBroker.System

/-!
# Calls of tenants

The calls of `EffectBroker` that tenants make, one after another, over one in-memory store.
Each is the procedure of `engine.py`, run to its end; the metrics that it records are left
out, since nothing reads them.
-/
namespace EffectBroker
open Python Concurrency

/-- What a tenant may call. -/
inductive TenantCall where
  | submit (request : EffectRequest)
  | get (effectId : Str)
  | list (status : Option EffectStatus) (limit offset : Int)
  | replayReceipt (effectId : Str)
  | cancel (effectId : Str) (expectedVersion : Int) (actor reason : Str)
  | resolve (effectId : Str) (resolution : EffectStatus) (evidence : Items)

/-- What a call returns. -/
inductive TenantReply where
  | reservation (reservation : Reservation)
  | effect (effect : EffectRecord)
  | effects (effects : List EffectRecord)
  | receipt (receipt : Items)

/-- A call of one tenant, with the wall clock that it reads. -/
structure BrokerCall where
  tenantId : Str
  call : TenantCall
  now : Datetime

namespace Broker

/-- `list`. -/
def list (s : InMemoryStore) (tenantId : Str) (status : Option EffectStatus) (limit offset : Int) :
    List EffectRecord := s.list tenantId status limit offset

/-- `replay_receipt`. -/
def replayReceipt (s : InMemoryStore) (tenantId effectId : Str) : Except Exc Items :=
  match s.receipt tenantId effectId with
  | none => .error (.unknownEffect effectId)
  | some receipt => .ok receipt

/-- Run a procedure to its end, while nobody else acts.  The calls of tenants ask nothing
of adapters. -/
def run {α : Type} (p : Program α) (now : Datetime) (s : InMemoryStore) :
    Except Exc α × InMemoryStore :=
  let surroundings : Surroundings AnyAnswer :=
    ⟨now, [], .ok (), .error .overflowError, .error .overflowError⟩
  let (result, shared) := p.evaluate (fun r shared => serve memoryStore anyAdapters r surroundings shared)
    ⟨s, {}, ()⟩
  (result, shared.store)

/-- Serve a call of a tenant. -/
def serve (broker : Broker) (c : BrokerCall) (s : InMemoryStore) :
    Except Exc TenantReply × InMemoryStore :=
  match c.call with
  | .submit request =>
    let (result, s) := run (broker.submit c.tenantId request) c.now s
    (result.map .reservation, s)
  | .get effectId =>
    let (result, s) := run (get c.tenantId effectId) c.now s
    (result.map .effect, s)
  | .list status limit offset => (.ok (.effects (list s c.tenantId status limit offset)), s)
  | .replayReceipt effectId => ((replayReceipt s c.tenantId effectId).map .receipt, s)
  | .cancel effectId expectedVersion actor reason =>
    let (result, s) := run (cancel c.tenantId effectId expectedVersion actor reason) c.now s
    (result.map .effect, s)
  | .resolve effectId resolution evidence =>
    let (result, s) := run (resolve c.tenantId effectId resolution evidence) c.now s
    (result.map .effect, s)

/-! ## What each procedure comes to -/

section
variable {s : InMemoryStore} {now : Datetime} {tenantId effectId : Str}

theorem run_submit (broker : Broker) (request : EffectRequest) :
    run (broker.submit tenantId request) now s = match broker.contracts.get request.tool with
      | .error exc => (.error exc, s)
      | .ok contract => s.reserve now tenantId request contract := by
  unfold run submit
  cases broker.contracts.get request.tool with
  | error exc => rfl
  | ok contract =>
    simp only [Coroutine.evaluate_bind, Coroutine.evaluate_ofExcept, Coroutine.evaluate_tryCatch,
      Program.reserve, Coroutine.evaluate_request, EffectBroker.serve, memoryStore]
    cases hreserve : s.reserve now tenantId request contract with
    | mk result s' =>
      cases result with
      | ok reservation => rfl
      | error exc => cases exc <;> rfl

theorem run_get : run (get tenantId effectId) now s = match s.get tenantId effectId with
    | none => (.error (.unknownEffect effectId), s)
    | some effect => (.ok effect, s) := by
  unfold run get
  simp only [Coroutine.evaluate_bind, Program.get, Coroutine.evaluate_request,
    Coroutine.evaluate_ofExcept, EffectBroker.serve, memoryStore]
  cases s.get tenantId effectId <;> rfl

/-- The message of a cancel that expects another version. -/
def cancelConflict (effectId : Str) (version : Nat) (expectedVersion : Int) : Str :=
  str "effect " ++ effectId ++ str " is version " ++ decimal version ++
    str ", not expected version " ++ decimalInt expectedVersion

theorem run_cancel (expectedVersion : Int) (actor reason : Str) :
    run (cancel tenantId effectId expectedVersion actor reason) now s =
      match s.get tenantId effectId with
      | none => (.error (.unknownEffect effectId), s)
      | some effect =>
        if (effect.version : Int) ≠ expectedVersion then
          (.error (.versionConflict (cancelConflict effectId effect.version expectedVersion)), s)
        else if !effect.status.isClaimable then
          (.error (.invalidTransition effect.status .cancelled), s)
        else s.transition now effect.effectId expectedVersion .cancelled
          [(text "actor", .str actor), (text "reason", .str reason)] := by
  unfold run cancel get
  simp only [Coroutine.evaluate_bind, Program.get, Coroutine.evaluate_request,
    Coroutine.evaluate_ofExcept, EffectBroker.serve, memoryStore]
  cases s.get tenantId effectId with
  | none => rfl
  | some effect =>
    simp only [Coroutine.evaluate_pure]
    split
    · rfl
    · split
      · rfl
      · simp only [Coroutine.evaluate_bind, Program.transition, Coroutine.evaluate_request,
          Coroutine.evaluate_ofExcept]
        cases htransition : s.transition now effect.effectId expectedVersion .cancelled
          [(text "actor", .str actor), (text "reason", .str reason)] with
        | mk result s' => cases result <;> rfl

theorem run_resolve (resolution : EffectStatus) (evidence : Items) :
    run (resolve tenantId effectId resolution evidence) now s =
      match s.get tenantId effectId with
      | none => (.error (.unknownEffect effectId), s)
      | some effect =>
        if effect.status ≠ .manualReview ∨ !isResolution resolution then
          (.error (.invalidTransition effect.status resolution), s)
        else s.transition now effect.effectId effect.version resolution
          [(text "evidence", .dict evidence), (text "actor", text "operator")] := by
  unfold run resolve get
  simp only [Coroutine.evaluate_bind, Program.get, Coroutine.evaluate_request,
    Coroutine.evaluate_ofExcept, EffectBroker.serve, memoryStore]
  cases s.get tenantId effectId with
  | none => rfl
  | some effect =>
    simp only [Coroutine.evaluate_pure]
    by_cases hstatus : effect.status ≠ .manualReview
    · rw [if_pos hstatus, if_pos (.inl hstatus)]
      rfl
    · rw [if_neg hstatus]
      by_cases hresolution : (!isResolution resolution) = true
      · rw [if_pos hresolution, if_pos (.inr hresolution)]
        rfl
      · rw [if_neg hresolution, if_neg (not_or.mpr ⟨hstatus, hresolution⟩)]
        simp only [Program.transition, Coroutine.evaluate_bind, Coroutine.evaluate_request,
          Coroutine.evaluate_ofExcept]

end

end Broker
end EffectBroker
