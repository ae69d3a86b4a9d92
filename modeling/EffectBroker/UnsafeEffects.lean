import EffectBroker.Coherence

/-!
# Unsafe effects are dispatched once

A target that can neither dedupe nor prove its state is never called twice for one
effect: with no retries a proven non-commit is final, and an unknown outcome only
goes to an operator.
-/
namespace EffectBroker
open Python Concurrency

/-- A call of `adapter.dispatch` for the effect `e` begins. -/
def isDispatchOf (e : Str) : BrokerEvent → Bool
  | .began _ (.dispatch effect _) => decide (effect.effectId = e)
  | _ => false

/-- The calls of `adapter.dispatch` for the effect `e`. -/
def dispatchCalls (e : Str) (log : List BrokerEvent) : Nat := log.countP (isDispatchOf e)

/-- The calls of `adapter.dispatch` in a life. -/
def dispatchesIn (moments : List Moment) : Nat :=
  moments.countP fun
    | .began .. => true
    | _ => false

/-- Where an unsafe effect may be after `n` dispatches. -/
def OnceDispatched (n : Nat) : Phase → Prop
  | .unborn => n = 0
  | .resting effect =>
    effect.status ≠ .retryable ∧ (effect.status = .prepared → n = 0) ∧ n ≤ 1
  | .held _ (.entered route _) _ | .held _ (.attempted route _ _) _ => route = .worker ∧ n = 0
  | .held _ (.built route _ _ _) calling => route = .worker ∧ n = if calling then 1 else 0
  | .held _ (.dispatched route _ _ _) _ => route = .worker ∧ n ≤ 1
  | .held .. => False

theorem OnceDispatched.le_one {n : Nat} {phase : Phase} (h : OnceDispatched n phase) : n ≤ 1 := by
  unfold OnceDispatched at h
  split at h
  · omega
  · exact h.2.2
  · omega
  · omega
  · obtain ⟨-, rfl⟩ := h
    split <;> decide
  · exact h.2
  · exact h.elim

/-- An unsafe effect without retries is dispatched at most once in its life. -/
theorem Life.onceDispatched {e : Str} {ms : List Moment} {phase : Phase} (h : Life e ms phase) :
    ∀ effect, phase.record? = some effect → effect.contract.safety = .unsafeClass →
      effect.contract.retryLimit = 0 → OnceDispatched (dispatchesIn ms) phase := by
  induction h with
  | unborn => exact fun _ h => nomatch h
  | reserved _ hs _ =>
    intro _ _ _ _
    exact ⟨by rw [hs]; exact fun h => (nomatch h), fun _ => rfl, Nat.zero_le _⟩
  | @claimed _ effect now _ _ ih =>
    intro effect' heq hsafety hlimit
    cases heq
    exact ih effect rfl hsafety hlimit
  | @started ms effect procedure clock target data caller now _ hstarts hedge ih =>
    intro effect' heq hsafety hlimit
    obtain rfl := Option.some.inj (Phase.record?_entering.symm.trans heq)
    obtain ⟨hretry, hprepared, hle⟩ := ih effect rfl hsafety hlimit
    -- at rest, the move only has to leave the claimable statuses alone
    have rest : target.isHeld = false → target.isClaimable = false → OnceDispatched (dispatchesIn
          (.moved ⟨caller, some procedure, clock⟩ (movedRecord effect target now) data :: ms))
          (.entering caller procedure.route (movedRecord effect target now)) := by
      intro hheld hc
      rw [Phase.entering_of_not_held hheld]
      refine ⟨fun h => ?_, fun h => ?_, hle⟩ <;>
      · rw [show target = _ from h] at hc
        cases hc
    cases hstarts with
    | claimed hroute hc =>
      rw [Phase.entering_dispatching rfl]
      exact ⟨hroute, hprepared ((EffectStatus.isClaimable_iff.mp hc).resolve_right hretry)⟩
    | redispatch _ hi =>
      rw [show effect.contract.safety = .unsafeClass from hsafety] at hi
      cases hi
    | reconcile hr =>
      rw [show effect.contract.safety = .unsafeClass from hsafety] at hr
      cases hr
    | review | cancel => exact rest rfl rfl
    | resolve _ _ hr => exact rest (Broker.isResolution_rests hr).1 (Broker.isResolution_rests hr).2
  | attempted _ ih =>
    intro effect heq hsafety hlimit
    cases heq
    exact ih _ rfl hsafety hlimit
  | built _ _ ih =>
    intro effect heq hsafety hlimit
    cases heq
    exact ih _ rfl hsafety hlimit
  | @began ms caller _ _ attemptId _ ih =>
    intro effect heq hsafety hlimit
    cases heq
    obtain ⟨hroute, hn⟩ := ih _ rfl hsafety hlimit
    exact ⟨hroute, by rw [show dispatchesIn (.began caller attemptId :: ms) = dispatchesIn ms + 1 from
      List.countP_cons_of_pos rfl, hn]; rfl⟩
  | landed _ ih =>
    intro effect heq hsafety hlimit
    cases heq
    exact ih _ rfl hsafety hlimit
  | dispatched _ _ ih =>
    intro effect heq hsafety hlimit
    cases heq
    obtain ⟨hroute, hn⟩ := ih _ rfl hsafety hlimit
    exact ⟨hroute, le_of_eq hn⟩
  | probeBuilt _ _ ih | probeBegan _ ih | probed _ _ ih =>
    intro effect heq hsafety hlimit
    cases heq
    exact (ih _ rfl hsafety hlimit).elim
  | @settled ms caller hold effect procedure clock target data now hlife hr hs _ ih =>
    intro effect' heq hsafety hlimit
    cases heq
    have hn := ih effect hr hsafety hlimit
    have final : ∀ a, hold.attemptId? = some a → nonCommitTarget effect a = .failedFinal := by
      intro a ha
      rw [(hlife.attemptId _ _ _ a rfl ha).1]
      exact nonCommitTarget_of_no_retries hlimit
    suffices target ≠ .retryable ∧ target ≠ .prepared from
      ⟨this.1, fun h => absurd h this.2, hn.le_one⟩
    cases hs with
    | refused | nonCommit =>
      cases hr
      rw [final _ rfl]
      exact ⟨fun h => (nomatch h), fun h => nomatch h⟩
    | redispatchNonCommit => cases hn.1
    | probeCommitted | probeNotCommitted | probeUnknown => exact hn.elim
    | committed | unbuilt | unknown => exact ⟨fun h => (nomatch h), fun h => nomatch h⟩

section
variable {Target Decision : Type} {adapters : Adapters Target Decision} {hashes : Hashes}
  {tenantKeyProvider : TenantKeyProvider} {target : Target}
  {w : World Response Exc Procedure Reply (Shared InMemoryStore Target)}

/-- The calls in a log are the dispatches of the life. -/
theorem dispatchCalls_eq (e : Str) (log : List BrokerEvent) :
    dispatchCalls e log = dispatchesIn (momentsOf e log) := by
  refine countP_momentsOf (fun log event => ⟨fun h => ?_, ?_⟩) log
  · unfold isDispatchOf at h
    split at h
    · exact ⟨_, .began (of_decide_eq_true h), rfl⟩
    · cases h
  · rintro ⟨m, hmeans, hq⟩
    cases hmeans with
    | began he => exact decide_eq_true he
    | reserved | moved | attempted | built | landed | dispatched | probeBegan | probed => cases hq

/-- **Unsafe effects are dispatched at most once, ever**, over the in-memory store: whatever the
adapters do, and whatever else runs. -/
theorem unsafe_dispatched_at_most_once {e : Str} {effect : EffectRecord}
    (h : (memoryBroker adapters).Reachable (.initial hashes tenantKeyProvider target) w)
    (hget : w.shared.store.records.get? e = some effect)
    (hsafety : effect.contract.safety = .unsafeClass) (hvalid : effect.contract.Valid) :
    dispatchCalls e w.log ≤ 1 := by
  obtain ⟨phase, hlife, hrec, -⟩ := (reachable_coherent h).tracked e
  rw [dispatchCalls_eq]
  exact (hlife.onceDispatched effect (hrec.symm.trans hget) hsafety
    (hvalid.unsafe_retryLimit hsafety)).le_one

/-- A worker dispatches an unsafe effect. -/
def unsafeRun : List (Choice Procedure (Surroundings AnyAnswer)) :=
  let surroundings : Surroundings AnyAnswer :=
    ⟨sampleTime 0, [], .ok (), .error (.other (str "TimeoutError") []), .error .overflowError⟩
  submitSample 0 (sampleContract .unsafeClass 0) surroundings ++
    claimSample 1 (sampleTime 0) surroundings

theorem unsafe_dispatched_at_most_once_sample :
    dispatchCalls (effectIdOf 1) (sampleWorld unsafeRun).log ≤ 1 :=
  unsafe_dispatched_at_most_once (sampleWorld_reachable unsafeRun)
    (Option.some_get (by decide +kernel)).symm (by decide +kernel) (by decide +kernel)

end
end EffectBroker
