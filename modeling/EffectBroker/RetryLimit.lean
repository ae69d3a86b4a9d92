import EffectBroker.DefiniteOutcomes

/-!
# The retry limit

A worker compares the ordinal of the attempt with the retry limit before it makes an
effect claimable again.  The reconciler does not: it chooses the same status as a worker
exactly while the limit is not reached.
-/
namespace EffectBroker
open Python Concurrency

/-- An attempt of the effect `e` starts. -/
def isAttemptOf (e : Str) : BrokerEvent → Bool
  | .answered _ (.startAttempt effectId _ _) (.ok _ : Except Exc Str) => effectId = e
  | _ => false

/-- The attempts of the effect `e` in a log. -/
def attemptsStarted (e : Str) (log : List BrokerEvent) : Nat := log.countP (isAttemptOf e)

theorem attemptsStarted_eq (e : Str) (log : List BrokerEvent) :
    attemptsStarted e log = attemptsIn (momentsOf e log) := by
  refine countP_momentsOf (fun log event => ⟨fun h => ?_, ?_⟩) log
  · unfold isAttemptOf at h
    split at h
    · obtain rfl := of_decide_eq_true h
      exact ⟨_, .attempted, rfl⟩
    · cases h
  · rintro ⟨m, hmeans, hq⟩
    cases hmeans with
    | attempted => exact decide_eq_true rfl
    | reserved | moved | built | began | landed | dispatched | probeBegan | probed => cases hq

/-! ## One proven non-commit -/

/-- The status that a program asks the store for next, past the metrics that it records. -/
def nextStatus {α : Type} : Program α → Option EffectStatus
  | .await (.transition _ _ target _) _ => some target
  | .await (.record _) resume => nextStatus (resume ())
  | _ => none

/-- A worker goes back to `retryable` exactly while the limit is not reached. -/
theorem nonCommitTarget_eq_retryable {effect : EffectRecord} {attemptId : Str} :
    nonCommitTarget effect attemptId = .retryable ↔
      attemptOrdinal attemptId < effect.contract.retryLimit := by
  unfold nonCommitTarget
  by_cases hlimit : attemptOrdinal attemptId < effect.contract.retryLimit
  · rw [if_pos hlimit]
    exact iff_of_true rfl hlimit
  · rw [if_neg hlimit]
    exact iff_of_false (fun h => nomatch h) hlimit

theorem nextStatus_recordFailure {dispatching : EffectRecord} {attemptId : Str} {exc : Exc}
    (h : exc.isAdapterError = true) :
    nextStatus (recordFailure dispatching attemptId exc) =
      some (nonCommitTarget dispatching attemptId) := by
  unfold recordFailure
  rw [if_pos h]
  rfl

theorem nextStatus_recordRedispatchFailure {dispatching : EffectRecord} {attemptId : Str} {exc : Exc}
    (h : exc.isAdapterError = true) :
    nextStatus (recordRedispatchFailure dispatching attemptId exc) = some .retryable := by
  unfold recordRedispatchFailure
  rw [if_pos h]
  rfl

/-- Worker and reconciler choose the same status exactly while the limit is not reached. -/
theorem same_nextStatus_iff {dispatching : EffectRecord} {attemptId : Str} {exc : Exc}
    (h : exc.isAdapterError = true) :
    nextStatus (recordFailure dispatching attemptId exc) =
        nextStatus (recordRedispatchFailure dispatching attemptId exc) ↔
      attemptOrdinal attemptId < dispatching.contract.retryLimit := by
  rw [nextStatus_recordFailure h, nextStatus_recordRedispatchFailure h, Option.some_inj]
  exact nonCommitTarget_eq_retryable

/-! ## Runs -/

/-- The caller has called a procedure that redispatches, rather than a worker's. -/
def callsRedispatch (c : Nat) : BrokerEvent → Bool
  | .called d procedure => d = c && procedure.route = .redispatch
  | _ => false

/-- The reconciler meets no `AdapterError` of the effect `e` at or past the limit. -/
def RedispatchWithin (e : Str) (retryLimit : Int) (older : List BrokerEvent) : BrokerEvent → Prop
  | .answered c (.dispatch effect attemptId) (.error exc : Except Exc DispatchReturn) =>
    effect.effectId = e → exc.isAdapterError → older.any (callsRedispatch c) →
      attemptOrdinal attemptId < retryLimit
  | _ => True

instance (e : Str) (retryLimit : Int) (older : List BrokerEvent) (event : BrokerEvent) :
    Decidable (RedispatchWithin e retryLimit older event) := by
  cases event with
  | answered c r response =>
    cases r with
    | dispatch effect attemptId =>
      cases response with
      | error exc => exact inferInstanceAs (Decidable (_ → _ → _ → _))
      | ok => exact isTrue trivial
    | _ => exact isTrue trivial
  | _ => exact isTrue trivial

/-- What a dispatch of a reconciler that proves a non-commit says of its attempt. -/
def WithinLimit (retryLimit : Int) (older : List Moment) : Moment → Prop
  | .dispatched c attemptId (.error exc) => exc.isAdapterError →
    (∃ procedure clock after data, .moved ⟨c, some procedure, clock⟩ after data ∈ older ∧
      procedure.route = .redispatch) → attemptOrdinal attemptId < retryLimit
  | _ => True

theorem throughout_withinLimit {e : Str} {retryLimit : Int} {log : List BrokerEvent}
    (h : Throughout (RedispatchWithin e retryLimit) log) :
    Throughout (WithinLimit retryLimit) (momentsOf e log) := by
  refine throughout_momentsOf h fun older event m hmeans hwithin => ?_
  cases hmeans with
  | @dispatched c effect attemptId answer he =>
    cases answer with
    | ok => trivial
    | error exc =>
      rintro ha ⟨procedure, clock, after, data, hm, hroute⟩
      refine hwithin he ha (List.any_eq_true.mpr ⟨_, called_of_moved hm rfl, ?_⟩)
      simp [callsRedispatch, hroute]
  | reserved | moved | attempted | built | began | landed | probeBegan | probed => trivial

/-- A life goes back to `retryable` only while the limit is not reached. -/
theorem Life.retryable_within {e : Str} {mover : Mover} {after : EffectRecord} {data : Items}
    {ms : List Moment} {phase : Phase} (h : Life e (.moved mover after data :: ms) phase)
    (hwithin : Throughout (WithinLimit after.contract.retryLimit) ms) (hs : after.status = .retryable) :
    (attemptsIn ms : Int) < after.contract.retryLimit := by
  obtain ⟨before, earlier, hlife, -, hmoved, -, now, hafter⟩ := h.of_moved rfl
  have hcontract : before.contract = after.contract := by rw [hafter]; rfl
  -- the attempt of the holder is the latest
  have ordinal : ∀ {hold : Hold} {attemptId : Str}, earlier = .held mover.caller hold false →
      hold.attemptId? = some attemptId → attemptOrdinal attemptId = attemptsIn ms := by
    intro hold attemptId hearlier hattempt
    rw [(hlife.attemptId _ _ _ _ hearlier hattempt).1, attemptOrdinal_attemptIdOf]
  rw [hs] at hmoved
  generalize htarget : EffectStatus.retryable = target at hmoved
  cases hmoved with
  | started hp hstarts =>
    subst htarget
    cases hstarts with
    | resolve _ _ hresolution => cases hresolution
  | @settled hold hr hsettles =>
    cases hsettles with
    | refused | nonCommit =>
      cases hr
      rw [← ordinal rfl rfl, ← hcontract]
      exact nonCommitTarget_eq_retryable.mp htarget.symm
    | @redispatchNonCommit effect attemptId exc _ ha =>
      cases hr
      obtain ⟨older, rfl⟩ := hlife.of_dispatched_hold rfl
      obtain ⟨procedure, clock, moved, data', hm, hroute⟩ := hlife.hold_mover _ _ _ _ rfl rfl
      rw [← ordinal rfl rfl]
      refine hwithin.1 ha ⟨procedure, clock, moved, data', ?_, hroute⟩
      exact (List.mem_cons.mp hm).resolve_left fun heq => nomatch heq
    | committed | unbuilt | unknown | probeCommitted | probeNotCommitted | probeUnknown =>
      cases htarget

section
variable {Target Decision : Type} {adapters : Adapters Target Decision} {hashes : Hashes}
  {tenantKeyProvider : TenantKeyProvider} {target : Target}
  {w : World Response Exc Procedure Reply (Shared InMemoryStore Target)}

/-- **The retry limit binds** in every run over the in-memory store in which no redispatch of the
effect by the reconciler proves a non-commit at or past the limit; where one does, the
reconciler and a worker choose different statuses. -/
theorem retry_limit_binds :
    (∀ {e : Str} {effect : EffectRecord},
      (memoryBroker adapters).Reachable (.initial hashes tenantKeyProvider target) w →
      w.shared.store.records.get? e = some effect →
      Throughout (RedispatchWithin e effect.contract.retryLimit) w.log →
      ∀ newer older c version data (after : EffectRecord), w.log = newer ++ .answered c
          (.transition e version .retryable data) (.ok after : Except Exc EffectRecord) :: older →
        (attemptsStarted e older : Int) < effect.contract.retryLimit) ∧
    ∀ (dispatching : EffectRecord) (attemptId : Str) (exc : Exc), exc.isAdapterError = true →
      (nextStatus (recordFailure dispatching attemptId exc) =
          nextStatus (recordRedispatchFailure dispatching attemptId exc) ↔
        attemptOrdinal attemptId < dispatching.contract.retryLimit) := by
  refine ⟨fun {e effect} h hget hlimit newer older c version data after hlog => ?_,
    fun _ _ _ => same_nextStatus_iff⟩
  obtain ⟨phase, hlife, hrec, -⟩ := (reachable_coherent h).tracked e
  have hwithin := throughout_withinLimit hlimit
  rw [hlog, momentsOf_append, momentsOf_cons_some Means.moved.momentOf_eq] at hlife hwithin
  have hanswer : .answered c (.transition e version .retryable data)
      (.ok after : Except Exc EffectRecord) ∈ w.log :=
    hlog ▸ List.mem_append_right _ (List.mem_cons_self ..)
  have hstatus : after.status = .retryable := possible_of_answered (reachable_runs h).1 hanswer
  -- the record after the move is of the same effect
  obtain ⟨earlier, hmoved, hpre⟩ := hlife.earlier
  obtain ⟨before, source, -, hsource, hby, -, now, hafter⟩ := hmoved.of_moved rfl
  obtain ⟨current, hcurrent, hsame⟩ := hsource.trans hpre before hby.record?
  obtain rfl := Option.some.inj (hcurrent.symm.trans (hrec.symm.trans hget))
  have hcontract : after.contract = current.contract := by
    rw [hafter, hsame.contract]
    rfl
  rw [attemptsStarted_eq, ← hcontract]
  rw [← hcontract] at hwithin
  exact hmoved.retryable_within hwithin.older.2 hstatus

/-- The first attempt of an effect that may be tried twice proves a non-commit. -/
def retriedRun : List (Choice Procedure (Surroundings AnyAnswer)) :=
  let refusal : Surroundings AnyAnswer := ⟨sampleTime 0, [], .ok (),
    .error (.adapterError (str "AdapterError") []), .error .overflowError⟩
  submitSample 0 (sampleContract .idempotent 2) refusal ++ claimSample 1 (sampleTime 0) refusal ++
    List.replicate 3 (.answer 1 refusal)

theorem retry_limit_binds_sample :
    let log := (sampleWorld retriedRun).log
    (attemptsStarted (effectIdOf 1) (log.drop 2) : Int) < 2 ∧
      (nextStatus (recordFailure (sampleEffect (sampleContract .idempotent 2) .dispatching 2)
            (attemptIdOf (effectIdOf 1) 1) (.adapterError (str "AdapterError") [])) =
          nextStatus (recordRedispatchFailure
            (sampleEffect (sampleContract .idempotent 2) .dispatching 2)
            (attemptIdOf (effectIdOf 1) 1) (.adapterError (str "AdapterError") [])) ↔
        attemptOrdinal (attemptIdOf (effectIdOf 1) 1) < 2) := by
  have hget : (sampleWorld retriedRun).shared.store.records.get? (effectIdOf 1) =
      some (sampleEffect (sampleContract .idempotent 2) .retryable 3) := rfl
  have hbinds := @retry_limit_binds _ _ anyAdapters sampleHashes sampleKeys () (sampleWorld retriedRun)
  exact ⟨hbinds.1 (sampleWorld_reachable retriedRun) hget (by decide +kernel)
    ((sampleWorld retriedRun).log.take 1) _ 1 2 _
    (sampleEffect (sampleContract .idempotent 2) .retryable 3) rfl, hbinds.2 _ _ _ rfl⟩

/-- A redispatch that proves a non-commit past the limit makes the effect claimable again. -/
theorem retried_past_limit : ∃ (w : World Response Exc Procedure Reply
      (Shared InMemoryStore Unit)) (e : Str) (effect : EffectRecord) (newer older : List BrokerEvent)
      (c : Nat) (version : Int) (data : Items),
    (memoryBroker anyAdapters).Reachable (.initial sampleHashes sampleKeys ()) w ∧
    effect.contract.Valid ∧ w.shared.store.records.get? e = some effect ∧
    w.log = newer ++ .answered c (.transition e version .retryable data)
      (.ok effect : Except Exc EffectRecord) :: older ∧
    ¬(attemptsStarted e older : Int) < effect.contract.retryLimit :=
  ⟨sampleWorld refusedRedispatchRun, effectIdOf 1,
    sampleEffect (sampleContract .idempotent 0) .retryable 5,
    (sampleWorld refusedRedispatchRun).log.take 1, (sampleWorld refusedRedispatchRun).log.drop 2, 2, 4,
    _, sampleWorld_reachable _, by decide, rfl, rfl, by decide +kernel⟩

end
end EffectBroker
