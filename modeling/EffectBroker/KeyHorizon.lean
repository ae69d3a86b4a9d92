import EffectBroker.EventStream
import EffectBroker.ProbedEffects

/-!
# Redispatch within the key horizon

A target only dedupes a key until `created_at + key_retention`, so an effect whose
outcome is in doubt should not be dispatched again after that.  The reconciler looks at
the clock; a worker that finds the effect `retryable` does not.
-/
namespace EffectBroker
open Python Concurrency

/-- The time of the clock at which a move is decided: the last reading of the mover, or
the time of the move if it has read no clock. -/
def Mover.decidedAt (mover : Mover) (after : EffectRecord) : Datetime :=
  mover.clock.getD after.updatedAt

/-- Later than `created_at + key_retention`. -/
def PastRetention (effect : EffectRecord) (now : Datetime) : Prop :=
  ∃ retention horizon, effect.contract.keyRetention = some retention ∧
    effect.createdAt.add retention = some horizon ∧ horizon < now

/-- Some dispatch of the effect `e` has ended without proof. -/
def Ambiguous (e : Str) (log : List BrokerEvent) : Prop :=
  ∃ c attemptId, ∃ effect : EffectRecord, ∃ answer : Except Exc DispatchReturn,
    effect.effectId = e ∧ EndsUnproved answer ∧ .answered c (.dispatch effect attemptId) answer ∈ log

/-- In this event no worker takes the effect `e` from `retryable` into `dispatching`, in
doubt and later than its key is retained. -/
def RetriedInTime (e : Str) (log : List BrokerEvent) : BrokerEvent → Prop
  | .answered c (.transition effectId _ _ _) (.ok after : Except Exc EffectRecord) =>
    effectId = e → after.status = .dispatching → IsWorker log c →
      statusIn (momentsOf e log) = some .retryable → Ambiguous e log →
      ¬ PastRetention after ((moverOf log c).decidedAt after)
  | _ => True

theorem Retained.not_past {effect : EffectRecord} {mover : Mover} (h : Retained effect mover.clock)
    (after : EffectRecord) : ¬ PastRetention effect (mover.decidedAt after) := by
  rintro ⟨retention, horizon, hretention, hhorizon, hlt⟩
  obtain ⟨_, _, now, hretention', hhorizon', hclock, hle⟩ := h
  cases hretention.symm.trans hretention'
  cases hhorizon.symm.trans hhorizon'
  rw [Mover.decidedAt, hclock] at hlt
  exact absurd hle (not_le_of_gt hlt)

/-- An idempotent effect never comes back to `prepared`: as long as it is, nothing has
been dispatched. -/
theorem Life.undispatched {e : Str} {ms : List Moment} {phase : Phase} (h : Life e ms phase) :
    ∀ effect, phase.record? = some effect → effect.contract.safety = .idempotent →
      effect.status = .prepared → ∀ c a answer, .dispatched c a answer ∉ ms := by
  induction h with
  | unborn => exact fun _ h => nomatch h
  | reserved =>
    intro _ _ _ _ _ _ _ hm
    rcases List.mem_cons.mp hm with hm | hm <;> cases hm
  | claimed _ _ _ ih =>
    intro effect heq hsafety hs
    cases heq
    exact ih _ rfl hsafety hs
  | started _ _ _ hstarts =>
    intro effect heq _ hs
    obtain rfl := Option.some.inj (Phase.record?_entering.symm.trans heq)
    obtain rfl : _ = EffectStatus.prepared := hs
    cases hstarts with
    | resolve _ _ hr => cases hr
  | settled _ hlife hr hsettles =>
    intro effect heq hsafety hs
    cases heq
    obtain rfl : _ = EffectStatus.prepared := hs
    generalize htarget : EffectStatus.prepared = target at hsettles
    cases hsettles with
    | refused | nonCommit =>
      unfold nonCommitTarget at htarget
      split at htarget <;> cases htarget
    | probeNotCommitted =>
      -- only effects whose class is probed are reconciling
      obtain ⟨_, hrec, hstatus⟩ := hlife.fits.held _ _ _ rfl
      cases hr
      cases hrec
      have hroute := hlife.fits.probed _ rfl (Option.some.inj hstatus).symm
      exact nomatch hroute.symm.trans (congrArg routeUnknown hsafety)
    | _ => cases htarget
  | attempted hlife | built _ hlife | began hlife | landed hlife | dispatched _ hlife
  | probeBuilt _ hlife | probeBegan hlife | probed _ hlife =>
    intro effect heq _ hs
    cases heq
    obtain ⟨_, hr, hstatus⟩ := hlife.fits.held _ _ _ rfl
    cases hr
    rw [hs] at hstatus
    cases hstatus

section
variable {Target Decision : Type} {adapters : Adapters Target Decision} {hashes : Hashes}
  {tenantKeyProvider : TenantKeyProvider} {target : Target}
  {w : World Response Exc Procedure Reply (Shared InMemoryStore Target)}

/-- **No redispatch in doubt after the key horizon**, as long as workers retry in time:
every other way into `dispatching` looks at the clock first. -/
theorem redispatched_within_retention {effect dispatched after : EffectRecord} {c d : Nat}
    {a : Str} {answer : Except Exc DispatchReturn} {version : Int} {status : EffectStatus}
    {data : Items} {newest mid oldest : List BrokerEvent}
    (h : (memoryBroker adapters).Reachable (.initial hashes tenantKeyProvider target) w)
    (hget : w.shared.store.records.get? dispatched.effectId = some effect)
    (hsafety : effect.contract.safety = .idempotent)
    (hretried : Throughout (RetriedInTime dispatched.effectId) w.log)
    (hlog : w.log = newest ++ .answered d (.transition dispatched.effectId version status data)
      (.ok after : Except Exc EffectRecord) ::
        (mid ++ .answered c (.dispatch dispatched a) answer :: oldest))
    (hend : EndsUnproved answer) (hentered : after.status = .dispatching) :
    ¬ PastRetention effect ((moverOf
      (mid ++ .answered c (.dispatch dispatched a) answer :: oldest) d).decidedAt after) := by
  obtain ⟨phase, hlife, hrec, -⟩ := (reachable_coherent h).tracked dispatched.effectId
  rw [hlog, momentsOf_append] at hlife
  obtain ⟨middle, hlife, hpre⟩ := hlife.earlier
  rw [momentsOf_cons_some Means.moved.momentOf_eq] at hlife
  obtain ⟨before, earlier, hbefore, hpre', hmoved, -, now, hafter⟩ := hlife.of_moved rfl
  obtain ⟨current, hcurrent, hsame⟩ := hpre'.trans hpre before hmoved.record?
  cases hget.symm.trans (hrec.trans hcurrent)
  -- the effect at the move has the same contract and creation time
  have hpast : ∀ now, PastRetention effect now ↔ PastRetention before now := fun now => by
    rw [PastRetention, PastRetention, hsame.contract, hsame.createdAt]
  rw [hpast]
  have hbeforesafety : before.contract.safety = .idempotent := hsame.contract ▸ hsafety
  have hdispatched : .dispatched c a answer ∈ momentsOf dispatched.effectId
      (mid ++ .answered c (.dispatch dispatched a) answer :: oldest) :=
    mem_momentsOf_of_mem (List.mem_append_right _ (List.mem_cons_self ..)) fun _ => .dispatched rfl
  rw [hentered] at hmoved
  cases hmoved with
  | settled _ hsettles => exact nomatch hsettles.not_held
  | started hp hstarts =>
    cases hstarts with
    | claimed hroute hc =>
      rcases EffectStatus.isClaimable_iff.mp hc with hs | hs
      · exact absurd hdispatched (hbefore.undispatched before rfl hbeforesafety hs c a answer)
      · have hretried := (hlog ▸ hretried).of_append rfl hentered
          (.of_route (mem_of_taskOf hp) hroute) (by rw [hbefore.statusIn]; exact congrArg some hs)
          ⟨c, a, dispatched, answer, rfl, hend, List.mem_append_right _ (List.mem_cons_self ..)⟩
        rw [hafter] at hretried ⊢
        exact hretried
    | redispatch _ _ hretained => exact hretained.not_past after
    | resolve _ _ hr => cases hr

theorem RetriedInTime.of_not_retryable {e : Str} {log : List BrokerEvent} {event : BrokerEvent}
    (h : statusIn (momentsOf e log) ≠ some .retryable) : RetriedInTime e log event := by
  unfold RetriedInTime
  split
  · exact fun _ _ _ hs => absurd hs h
  · trivial

/-- A dispatch times out, and is repeated on the same day. -/
def redispatchRun : List (Choice Procedure (Surroundings AnyAnswer)) :=
  let timeout : Surroundings AnyAnswer := ⟨sampleTime 0, [], .ok (),
    .error (.other (str "TimeoutError") []), .error .overflowError⟩
  let contract := sampleContract .idempotent 0
  submitSample 0 contract timeout ++ claimSample 1 (sampleTime 0) timeout ++
    List.replicate 3 (.answer 1 timeout) ++
    .call 2 (.reconcile (sampleBroker contract) sampleTenant (effectIdOf 1)) ::
    List.replicate 5 (.answer 2 timeout)

set_option maxRecDepth 10000 in
theorem redispatched_within_retention_sample :
    let contract := sampleContract .idempotent 0
    ¬ PastRetention (sampleEffect contract .dispatching 4)
      ((moverOf ((sampleWorld redispatchRun).log.drop 1) 2).decidedAt
        (sampleEffect contract .dispatching 4)) :=
  let contract := sampleContract .idempotent 0
  let log := (sampleWorld redispatchRun).log
  let first := sampleEffect contract .dispatching 2
  let after := sampleEffect contract .dispatching 4
  let answer : Except Exc DispatchReturn := .error (.other (str "TimeoutError") [])
  have hlog : log = [] ++ .answered 2 (.transition first.effectId 3 .dispatching
        [(text "reason", text "idempotent_redispatch")]) (.ok after : Except Exc EffectRecord) ::
      ((log.drop 1).take 7 ++
        .answered 1 (.dispatch first (attemptIdOf (effectIdOf 1) 1)) answer :: log.drop 9) := rfl
  have hstatus : Throughout (fun older _ => statusIn (momentsOf (effectIdOf 1) older) ≠
      some .retryable) log := by decide +kernel
  redispatched_within_retention (sampleWorld_reachable redispatchRun)
    (show _ = some after from rfl) rfl (Throughout.mono hstatus fun _ _ => .of_not_retryable) hlog
    (.raised rfl) rfl

/-- A redispatch meets a proven non-commit, and a worker retries days after the key has
expired. -/
def lateRetryRun : List (Choice Procedure (Surroundings AnyAnswer)) :=
  let timeout : Surroundings AnyAnswer := ⟨sampleTime 0, [], .ok (),
    .error (.other (str "TimeoutError") []), .error .overflowError⟩
  let refusal : Surroundings AnyAnswer := ⟨sampleTime 0, [], .ok (),
    .error (.adapterError (str "AdapterError") []), .error .overflowError⟩
  let late : Surroundings AnyAnswer := ⟨sampleTime 5, [], .ok (),
    .error .overflowError, .error .overflowError⟩
  let contract := sampleContract .idempotent 0
  submitSample 0 contract timeout ++ claimSample 1 (sampleTime 0) timeout ++
    List.replicate 3 (.answer 1 timeout) ++
    .call 2 (.reconcile (sampleBroker contract) sampleTenant (effectIdOf 1)) ::
    List.replicate 9 (.answer 2 refusal) ++ .begin 2 :: List.replicate 4 (.answer 2 refusal) ++
    claimSample 3 (sampleTime 5) late

set_option maxRecDepth 10000 in
/-- A worker dispatches an effect in doubt four days after its key has expired. -/
theorem redispatched_past_retention : ∃ (w : World Response Exc Procedure Reply
      (Shared InMemoryStore Unit)) (effect dispatched after : EffectRecord) (c d : Nat) (a : Str)
      (answer : Except Exc DispatchReturn) (version : Int) (status : EffectStatus) (data : Items)
      (newest mid oldest : List BrokerEvent),
    (memoryBroker anyAdapters).Reachable (.initial sampleHashes sampleKeys ()) w ∧
    w.shared.store.records.get? dispatched.effectId = some effect ∧
    effect.contract.safety = .idempotent ∧ effect.contract.Valid ∧
    w.log = newest ++ .answered d (.transition dispatched.effectId version status data)
      (.ok after : Except Exc EffectRecord) ::
        (mid ++ .answered c (.dispatch dispatched a) answer :: oldest) ∧
    EndsUnproved answer ∧ after.status = .dispatching ∧
    PastRetention effect ((moverOf
      (mid ++ .answered c (.dispatch dispatched a) answer :: oldest) d).decidedAt after) :=
  let contract := sampleContract .idempotent 0
  let log := (sampleWorld lateRetryRun).log
  let after := { sampleEffect contract .dispatching 7 with updatedAt := sampleTime 5 }
  ⟨sampleWorld lateRetryRun, after, sampleEffect contract .dispatching 2, after, 1, 3,
    attemptIdOf (effectIdOf 1) 1, .error (.other (str "TimeoutError") []), 6, .dispatching,
    [(text "worker_id", text "w")], log.take 5, (log.drop 6).take 19, log.drop 26,
    sampleWorld_reachable _, rfl, rfl, by decide, rfl, .raised rfl, rfl,
    oneDay, sampleTime 1, rfl,
    by decide +kernel, by decide +kernel⟩

end
end EffectBroker
