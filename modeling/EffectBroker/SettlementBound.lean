import EffectBroker.Cancellation
import EffectBroker.SimulatedTarget

/-!
# The settlement bound

`SimulatedAdapter.probe` concludes that nothing was committed once the settlement bound has
elapsed since the effect was reserved.  What could still land began later, with the latest
attempt.  The two agree unless a probe comes between them.
-/
namespace EffectBroker
open Python Concurrency

/-- `now` is at least `bound` after `since`. -/
def Elapsed (since : Datetime) (bound : Timedelta) (now : Datetime) : Prop :=
  (since.micros : Int) + bound.micros ≤ now.micros

instance (since : Datetime) (bound : Timedelta) (now : Datetime) :
    Decidable (Elapsed since bound now) := inferInstanceAs (Decidable (_ ≤ _))

theorem Elapsed.later {since now now' : Datetime} {bound : Timedelta} (h : Elapsed since bound now)
    (hle : now ≤ now') : Elapsed since bound now' := by
  have hmicros := Datetime.le_iff.mp hle
  unfold Elapsed at *
  omega

theorem elapsed_of_add {since settled now : Datetime} {bound : Timedelta}
    (h : since.add bound = some settled) (hle : settled ≤ now) : Elapsed since bound now := by
  have hmicros := Datetime.add_micros h
  have hnow := Datetime.le_iff.mp hle
  unfold Elapsed
  omega

/-- When the latest attempt of an effect started. -/
def InMemoryStore.latestStart (s : InMemoryStore) (effectId : Str) : Option Datetime :=
  (s.attemptsOf effectId).getLast?.map Attempt.startedAt

/-! ## Attempts -/

section
variable {Target Decision : Type} {adapters : Adapters Target Decision} {e : Str}

/-- Requests that mean nothing for an effect start no attempt of it. -/
theorem attemptsOf_serve {mover : Mover} {r : Request} {surroundings : Surroundings Decision}
    {shared : Shared InMemoryStore Target}
    (h : answerMoment e mover r (serve memoryStore adapters r surroundings shared).1 = none) :
    (serve memoryStore adapters r surroundings shared).2.store.attemptsOf e =
      shared.store.attemptsOf e := by
  cases r with
  | reserve tenantId request contract =>
    revert h
    show answerMoment e mover (.reserve tenantId request contract)
        (shared.store.reserve surroundings.now tenantId request contract).1 = none →
      (shared.store.reserve surroundings.now tenantId request contract).2.attemptsOf e = _
    intro h
    rcases shared.store.reserve_cases surroundings.now tenantId request contract with
      ⟨exc, next, heq, -⟩ | ⟨existing, heq, -⟩ | ⟨record, heq, -⟩ <;> rw [heq] at h ⊢
    · rfl
    have hne : e ≠ record.effectId := by
      rintro rfl
      simp [answerMoment] at h
    rw [InMemoryStore.insertEffect_attempts, if_neg hne]
    rfl
  | claimDue workerId now leaseFor limit =>
    have hclaims := (shared.store.claimDue_spec workerId now leaseFor limit).1
    exact congrArg (fun attempts => (attempts.get? e).getD []) hclaims.attempts
  | startAttempt effectId expectedVersion workerId =>
    revert h
    show answerMoment e mover (.startAttempt effectId expectedVersion workerId)
        (shared.store.startAttempt surroundings.now effectId expectedVersion workerId).1 = none →
      (shared.store.startAttempt surroundings.now effectId expectedVersion workerId).2.attemptsOf e = _
    intro h
    rcases shared.store.startAttempt_cases surroundings.now effectId expectedVersion workerId with
      ⟨exc, heq⟩ | ⟨record, -, -, heq⟩ <;> rw [heq] at h ⊢
    have hne : e ≠ effectId := by
      rintro rfl
      simp [answerMoment] at h
    rw [InMemoryStore.addAttempt_attempts, if_neg hne]
  | transition effectId expectedVersion target data =>
    show (shared.store.transition surroundings.now effectId expectedVersion target data).2.attemptsOf e = _
    rcases shared.store.transition_cases surroundings.now effectId expectedVersion target data with
      ⟨exc, heq, -⟩ | ⟨record, -, -, -, heq⟩ <;> rw [heq]
    unfold InMemoryStore.attemptsOf
    rw [InMemoryStore.moveRecord_attempts]
  | _ => rfl

end

/-- An effect whose outcome is in doubt. -/
def EffectStatus.inDoubt : EffectStatus → Bool
  | .outcomeUnknown | .reconciling | .manualReview => true
  | _ => false

/-- Only an attempt brings doubt. -/
theorem Life.attempted_of_inDoubt {e : Str} {ms : List Moment} {phase : Phase} (h : Life e ms phase) :
    ∀ effect, phase.record? = some effect → effect.status.inDoubt = true → 0 < attemptsIn ms := by
  induction h with
  | unborn => exact fun _ h => nomatch h
  | reserved _ hs =>
    intro effect heq hdoubt
    cases heq
    rw [hs] at hdoubt
    cases hdoubt
  | @claimed _ effect now _ hc ih =>
    intro effect' heq hdoubt
    cases heq
    exact ih effect rfl hdoubt
  | @started _ effect procedure _ target _ caller now hlife _ hedge ih =>
    intro effect' heq hdoubt
    obtain rfl := Option.some.inj (Phase.record?_entering.symm.trans heq)
    have hdoubt : target.inDoubt = true := hdoubt
    -- the way into doubt from rest goes through `outcomeUnknown`
    have hbefore : effect.status.inDoubt = true := by
      have hrests := hlife.fits.resting effect rfl
      revert hedge hdoubt hrests
      cases effect.status <;> cases target <;> decide
    exact ih effect rfl hbefore
  | attempted =>
    intro _ _ _
    rw [attemptsIn_attempted]
    exact Nat.succ_pos _
  | built _ _ ih | began _ ih | landed _ ih | dispatched _ _ ih | probeBuilt _ _ ih | probeBegan _ ih
  | probed _ _ ih => exact fun effect heq hdoubt => ih effect heq hdoubt
  | @settled ms caller hold effect _ _ target _ now hlife hr hsettles _ ih =>
    intro effect' heq hdoubt
    cases heq
    have hdoubt : target.inDoubt = true := hdoubt
    cases hsettles with
    | committed | redispatchNonCommit | probeCommitted | probeNotCommitted => cases hdoubt
    | refused | nonCommit =>
      unfold nonCommitTarget at hdoubt
      split at hdoubt <;> cases hdoubt
    | unbuilt | unknown => exact (hlife.attemptId _ _ _ _ rfl rfl).2
    | probeUnknown =>
      obtain ⟨effect', hr', hs⟩ := hlife.fits.held _ _ _ rfl
      have hstatus : effect'.status = .reconciling := (Option.some.inj hs).symm
      exact ih effect' hr' (by rw [hstatus]; rfl)

section
variable {Decision : Type} {adapters : Adapters SimulatedTarget Decision} {hashes : Hashes}
  {tenantKeyProvider : TenantKeyProvider} {target : SimulatedTarget} {e : Str}
  {u v : World Response Exc Procedure Reply (Shared InMemoryStore SimulatedTarget)}
  {choice : Choice Procedure (Surroundings Decision)}

/-! ## Timely probes -/

/-- A probe that comes now would find no charge of the effect, after the bound has elapsed
since its reservation and before it has since its latest attempt. -/
def Premature (s : Shared InMemoryStore SimulatedTarget) (effect : EffectRecord) : Prop :=
  effect.contract.safety = .reconcilable ∧
  s.target.firstByDownstreamKey effect.downstreamKey = none ∧
  match effect.contract.settlementBound, s.store.latestStart effect.effectId with
  | some bound, some started =>
    Elapsed effect.createdAt bound s.target.now ∧ ¬Elapsed started bound s.target.now
  | _, _ => False

instance (s : Shared InMemoryStore SimulatedTarget) (effect : EffectRecord) :
    Decidable (Premature s effect) := by
  unfold Premature
  split <;> infer_instance

/-- The effect whose probe a choice answers. -/
def probeAnswered (u : World Response Exc Procedure Reply (Shared InMemoryStore SimulatedTarget)) :
    Choice Procedure (Surroundings Decision) → Option EffectRecord
  | .answer c _ =>
    match u.callers c with
    | .running (.await (.probe effect) _) => some effect
    | _ => none
  | _ => none

/-- The target's clock does not go back, and no probe is premature. -/
def Timely (u : World Response Exc Procedure Reply (Shared InMemoryStore SimulatedTarget))
    (choice : Choice Procedure (Surroundings Decision))
    (v : World Response Exc Procedure Reply (Shared InMemoryStore SimulatedTarget)) : Prop :=
  u.shared.target.now ≤ v.shared.target.now ∧
  match probeAnswered u choice with
  | some effect => ¬Premature u.shared effect
  | none => True

instance (u : World Response Exc Procedure Reply (Shared InMemoryStore SimulatedTarget))
    (choice : Choice Procedure (Surroundings Decision))
    (v : World Response Exc Procedure Reply (Shared InMemoryStore SimulatedTarget)) :
    Decidable (Timely u choice v) := by
  unfold Timely
  split <;> infer_instance

/-- The latest moment of the effect is a probe that has found nothing. -/
def FoundNothing (e : Str) (log : List BrokerEvent) : Prop :=
  ∃ c result ms, momentsOf e log = .probed c (.ok result) :: ms ∧
    result.status = .ok (.known .notCommitted)

/-- The bound of the effect has elapsed since its latest attempt started. -/
def AttemptSettled (s : Shared InMemoryStore SimulatedTarget) (e : Str) : Prop :=
  ∃ effect bound, s.store.records.get? e = some effect ∧
    effect.contract.settlementBound = some bound ∧
    ∀ started, s.store.latestStart e = some started → Elapsed started bound s.target.now

/-- A step leaves a record its contract. -/
theorem contract_step {effect : EffectRecord} (hkept : u.shared.store.Kept)
    (hs : (memoryBroker adapters).step u choice = some v)
    (hget : u.shared.store.records.get? e = some effect) :
    ∃ effect', v.shared.store.records.get? e = some effect' ∧ effect'.contract = effect.contract := by
  have hrecord : RecordStep (u.shared.store.records.get? e) (v.shared.store.records.get? e) := by
    rcases store_step hs with heq | ⟨c, heq⟩ <;> rw [heq]
    · exact .same
    · exact InMemoryStore.serve_records hkept c e
  rw [hget] at hrecord
  generalize v.shared.store.records.get? e = after at hrecord
  cases hrecord with
  | same => exact ⟨effect, rfl, rfl⟩
  | claimed | moved => exact ⟨_, rfl, rfl⟩

/-- While no attempt starts and the clock does not go back, the effect stays settled. -/
theorem AttemptSettled.step (h : AttemptSettled u.shared e) (hkept : u.shared.store.Kept)
    (hs : (memoryBroker adapters).step u choice = some v)
    (hclock : u.shared.target.now ≤ v.shared.target.now)
    (hattempts : v.shared.store.attemptsOf e = u.shared.store.attemptsOf e) :
    AttemptSettled v.shared e := by
  obtain ⟨effect, bound, hget, hbound, helapsed⟩ := h
  obtain ⟨effect', hget', hcontract⟩ := contract_step hkept hs hget
  refine ⟨effect', bound, hget', hcontract ▸ hbound, fun started hstarted => ?_⟩
  refine (helapsed started ?_).later hclock
  unfold InMemoryStore.latestStart at hstarted ⊢
  rw [← hattempts]
  exact hstarted

/-- A timely probe that finds nothing comes after the bound has elapsed since the latest
attempt. -/
theorem attemptSettled_of_probe {effect : EffectRecord} {result : ProbeResult}
    {s : Shared InMemoryStore SimulatedTarget}
    (hresult : SimulatedAdapter.probe s.target effect = .ok result)
    (hstatus : result.status = .notCommitted) (htimely : ¬Premature s effect)
    (hget : s.store.records.get? effect.effectId = some effect) :
    AttemptSettled s effect.effectId := by
  obtain ⟨hsafety, hnone, bound, settled, hbound, hadd, hle⟩ :=
    SimulatedAdapter.probe_notCommitted hresult hstatus
  refine ⟨effect, bound, hget, hbound, fun started hstarted => ?_⟩
  by_contra hn
  refine htimely ⟨hsafety, hnone, ?_⟩
  rw [hbound, hstarted]
  exact ⟨elapsed_of_add hadd hle, hn⟩

/-- A caller that awaits a probe holds the effect, and the ledger has it as it knows it. -/
theorem stored_of_awaited {c : Nat} {effect : EffectRecord}
    {resume : Except Exc ProbeReturn → Program Reply}
    (h : (memoryBroker adapters).Reachable (.initial hashes tenantKeyProvider target) u)
    (hrunning : u.callers c = .running (.await (.probe effect) resume)) :
    u.shared.store.records.get? effect.effectId = some effect := by
  have hcoherent := reachable_coherent h
  have hconforms := (reachable_runs h).2 c
  rw [hrunning] at hconforms
  obtain ⟨l, hl, hfollows, -⟩ := hconforms
  have hcall : l.hold.call? = some (.probe effect) := Allowed.call?_of_external hfollows.1 rfl
  have hrecord : l.hold.record? = some effect := by
    generalize l.hold = hold at hcall
    unfold Hold.call? at hcall
    split at hcall <;> cases hcall
    rfl
  have hhold : holdOf u.log c = l.hold := holdOf_eq hl
  have hid : (holdOf u.log c).effectId? = some effect.effectId := by
    rw [hhold, Hold.effectId?, hrecord]
    rfl
  obtain ⟨-, -, hget, -⟩ := (hcoherent.tracked effect.effectId).holder hid
  rw [hget, hhold, hrecord]

/-- One timely step keeps what a probe that has found nothing shows. -/
theorem step_foundNothing
    (hprobe : ∀ decision effect target, adapters.probe decision effect target =
      ((SimulatedAdapter.probe target effect).map ProbeResult.read, target))
    (h : (memoryBroker adapters).Reachable (.initial hashes tenantKeyProvider target) u)
    (hs : (memoryBroker adapters).step u choice = some v) (htimely : Timely u choice v)
    (ih : FoundNothing e u.log → AttemptSettled u.shared e) :
    FoundNothing e v.log → AttemptSettled v.shared e := by
  rintro ⟨c, result, ms, hms, hstatus⟩
  obtain ⟨storeLog, hrun⟩ := reachable_storeRun h
  have keep : momentsOf e v.log = momentsOf e u.log →
      v.shared.store.attemptsOf e = u.shared.store.attemptsOf e → AttemptSettled v.shared e :=
    fun hmoments => (ih ⟨c, result, ms, hmoments ▸ hms, hstatus⟩).step
      (InMemoryStore.kept_of_run hrun) hs htimely.1
  -- an event that is no answer means no probe
  have quiet : ∀ event, v.log = event :: u.log → v.shared = u.shared →
      (∀ d r response, event ≠ .answered d r response) → AttemptSettled v.shared e := by
    intro event hlog hshared hno
    cases hm : momentOf e u.log event with
    | none => exact keep (hlog ▸ momentsOf_cons_none hm) (congrArg (·.store.attemptsOf e) hshared)
    | some m =>
      rw [hlog, momentsOf_cons_some hm] at hms
      obtain ⟨rfl, -⟩ := List.cons.inj hms
      cases means_iff.mp hm with
      | probed => exact absurd rfl (hno _ _ _)
  cases choice with
  | disturb =>
    cases hs
    exact keep rfl rfl
  | call | begin | land | stop =>
    simp only [System.step] at hs
    split at hs <;> (try split at hs) <;> cases hs
    all_goals
      refine quiet _ rfl rfl fun _ _ _ heq => ?_
      cases heq
  | answer d input =>
    obtain ⟨r, resume, hrunning, hshared, hlog⟩ := System.step_awaited hs
    cases hm : answerMoment e (moverOf u.log d) r
        ((memoryBroker adapters).exec r input u.shared).1 with
    | none =>
      refine keep (hlog ▸ momentsOf_answered_none hm) ?_
      rw [hshared]
      exact attemptsOf_serve hm
    | some m =>
      rw [hlog, momentsOf_answered_some hm] at hms
      obtain ⟨rfl, -⟩ := List.cons.inj hms
      have hmeans : Means e u.log (.answered d r _) _ := means_of_answerMoment hm
      generalize hanswer : ((memoryBroker adapters).exec r input u.shared).1 = answer at hmeans
      cases hmeans with
      | @probed _ effect _ he =>
        subst he
        have hprobed : adapters.probe input.decision effect u.shared.target = _ := hprobe ..
        have hmap : (SimulatedAdapter.probe u.shared.target effect).map ProbeResult.read =
            .ok result := by
          rw [← hanswer]
          exact (congrArg Prod.fst hprobed).symm
        have hsame : v.shared = u.shared := by
          rw [hshared]
          exact congrArg (fun target => { u.shared with target := target }) (congrArg Prod.snd hprobed)
        have hnot : ¬Premature u.shared effect := by
          have h := htimely.2
          simp only [probeAnswered, hrunning] at h
          exact h
        cases hresult : SimulatedAdapter.probe u.shared.target effect with
        | error exc =>
          rw [hresult] at hmap
          cases hmap
        | ok found =>
          rw [hresult] at hmap
          cases hmap
          rw [hsame]
          refine attemptSettled_of_probe hresult ?_ hnot (stored_of_awaited h hrunning)
          exact ReportedStatus.known.inj (Except.ok.inj hstatus)

/-- What a probe that has found nothing shows, in every timely run. -/
theorem reachable_attemptSettled
    (hprobe : ∀ decision effect target, adapters.probe decision effect target =
      ((SimulatedAdapter.probe target effect).map ProbeResult.read, target))
    (h : (memoryBroker adapters).ReachableVia Timely
      (World.initial (.initial hashes tenantKeyProvider target)) u) :
    FoundNothing e u.log → AttemptSettled u.shared e := by
  induction h with
  | start =>
    rintro ⟨_, _, _, hms, -⟩
    cases hms
  | step hvia hs htimely ih => exact step_foundNothing hprobe hvia.reachableFrom hs htimely ih

/-- An effect goes back to `prepared` only after a probe that has found nothing. -/
theorem Life.of_prepared {mover : Mover} {after : EffectRecord} {data : Items} {ms : List Moment}
    {phase : Phase} (h : Life e (.moved mover after data :: ms) phase) (hs : after.status = .prepared) :
    ∃ before earlier c result older, Life e ms earlier ∧ earlier.Precedes phase ∧
      earlier.record? = some before ∧ before.status = .reconciling ∧
      after.contract = before.contract ∧ ms = .probed c (.ok result) :: older ∧
      result.status = .ok (.known .notCommitted) := by
  obtain ⟨before, earlier, hlife, hpre, hmoved, -, now, hafter⟩ := h.of_moved rfl
  have hcontract : after.contract = before.contract := by
    rw [hafter]
    rfl
  have hrecord := hmoved.record?
  rw [hs] at hmoved
  cases hmoved with
  | started _ hstarts =>
    cases hstarts with
    | resolve _ _ hr => cases hr
  | @settled hold hr hsettles =>
    generalize htarget : EffectStatus.prepared = target at hsettles
    cases hsettles with
    | probeNotCommitted hstatus =>
      obtain ⟨older, hms⟩ := hlife.of_probed_hold rfl
      obtain ⟨effect, hheld, hstatus'⟩ := hlife.fits.held _ _ _ rfl
      cases hheld.symm.trans hr
      exact ⟨_, _, _, _, older, hlife, hpre, hrecord, (Option.some.inj hstatus').symm, hcontract, hms,
        hstatus⟩
    | refused | nonCommit =>
      unfold nonCommitTarget at htarget
      split at htarget <;> cases htarget
    | _ => cases htarget

/-- **Absence is concluded only after the settlement bound** has elapsed since the latest
attempt, in every run over the in-memory store whose probes are timely. -/
theorem absence_after_settlement
    (hprobe : ∀ decision effect target, adapters.probe decision effect target =
      ((SimulatedAdapter.probe target effect).map ProbeResult.read, target))
    (h : (memoryBroker adapters).ReachableVia Timely
      (World.initial (.initial hashes tenantKeyProvider target)) u)
    (hs : (memoryBroker adapters).step u choice = some v) {c : Nat} {version : Int} {data : Items}
    {after : EffectRecord} (hlog : v.log = .answered c (.transition e version .prepared data)
      (.ok after : Except Exc EffectRecord) :: u.log) :
    ∃ bound started, after.contract.settlementBound = some bound ∧
      u.shared.store.latestStart e = some started ∧ Elapsed started bound u.shared.target.now := by
  have hv := h.reachableFrom.step hs
  have hanswer : .answered c (.transition e version .prepared data)
      (.ok after : Except Exc EffectRecord) ∈ v.log := hlog ▸ List.mem_cons_self ..
  have hstatus : after.status = .prepared := possible_of_answered (reachable_runs hv).1 hanswer
  obtain ⟨phase, hlife, hrec, -⟩ := (reachable_coherent hv).tracked e
  rw [hlog, momentsOf_cons_some Means.moved.momentOf_eq] at hlife
  obtain ⟨before, earlier, d, result, older, hearlier, hpre, hbefore, hdoubt, hcontract, hms, hfound⟩ :=
    hlife.of_prepared hstatus
  obtain ⟨effect, bound, hget, hbound, helapsed⟩ :=
    reachable_attemptSettled hprobe h ⟨d, result, older, hms, hfound⟩
  -- the record has one contract before and after the move
  obtain ⟨storeLog, hrun⟩ := reachable_storeRun h.reachableFrom
  obtain ⟨current, hcurrent, hsame⟩ := contract_step (InMemoryStore.kept_of_run hrun) hs hget
  obtain ⟨current', hcurrent', heffect⟩ := hpre before hbefore
  cases hcurrent.symm.trans (hrec.trans hcurrent')
  have hlen : 0 < (u.shared.store.attemptsOf e).length := by
    rw [(reachable_coherent h.reachableFrom).attempts_length]
    exact hearlier.attempted_of_inDoubt before hbefore (by rw [hdoubt]; rfl)
  have hstarted : ∃ started, u.shared.store.latestStart e = some started := by
    rw [InMemoryStore.latestStart, List.getLast?_eq_some_getLast (List.ne_nil_of_length_pos hlen)]
    exact ⟨_, rfl⟩
  obtain ⟨started, hstarted⟩ := hstarted
  refine ⟨bound, started, ?_, hstarted, helapsed started hstarted⟩
  rw [hcontract, ← heffect.contract, hsame, hbound]

end

/-! ## Late dispatches -/

/-- Whether a dispatch reaches the target, and how the target is switched. -/
structure Delivery where
  delivered : Bool
  switches : TargetSwitches

/-- `SimulatedAdapter`s whose dispatches may be lost before they reach the target. -/
def lossyAdapters : Adapters SimulatedTarget Delivery where
  adapterFor delivery := simulatedAdapters.adapterFor delivery.switches
  dispatch delivery effect attemptId target :=
    if delivery.delivered then simulatedAdapters.dispatch delivery.switches effect attemptId target
    else (.error (.ambiguousDispatch (str "request lost before target commit")), target)
  probe delivery := simulatedAdapters.probe delivery.switches
  disturb delivery := simulatedAdapters.disturb delivery.switches

/-- The sample contract, whose bound is a day. -/
def dayContract : EffectContract :=
  { sampleContract .reconcilable 0 with settlementBound := some oneDay }

/-- An effect that was reserved on day 0 is dispatched on day 2, in vain, and probed on
another day.  The last choice moves it back to `prepared`. -/
def lateDispatchRun (probeDay : Fin 100) : List (Choice Procedure (Surroundings Delivery)) :=
  let on (day : Fin 100) : Surroundings Delivery :=
    ⟨sampleTime day, [], false, false, false, sampleTime day⟩
  submitSample 0 dayContract (on 0) ++ .disturb (on 2) :: claimSample 1 (sampleTime 2) (on 2) ++
    List.replicate 3 (.answer 1 (on 2)) ++ .disturb (on probeDay) ::
    .call 2 (.reconcile (sampleBroker dayContract) sampleTenant (effectIdOf 1)) ::
    List.replicate 4 (.answer 2 (on probeDay)) ++ .begin 2 :: List.replicate 2 (.answer 2 (on probeDay))

/-- The world of the run, before the last move. -/
def lateDispatchWorld (probeDay : Fin 100) :
    World Response Exc Procedure Reply (Shared InMemoryStore SimulatedTarget) :=
  (memoryBroker lossyAdapters).after
    (World.initial (.initial sampleHashes sampleKeys (.initial (sampleTime 0)))) (lateDispatchRun probeDay)

theorem absence_after_settlement_sample : ∃ bound started,
    dayContract.settlementBound = some bound ∧
    (lateDispatchWorld 3).shared.store.latestStart (effectIdOf 1) = some started ∧
    Elapsed started bound (lateDispatchWorld 3).shared.target.now := by
  have hmeets : (memoryBroker lossyAdapters).Meets Timely
      (World.initial (.initial sampleHashes sampleKeys (.initial (sampleTime 0)))) (lateDispatchRun 3) := by
    decide +kernel
  have hs : ∃ v, (memoryBroker lossyAdapters).step (lateDispatchWorld 3) (.answer 2
      ⟨sampleTime 3, [], false, false, false, sampleTime 3⟩) = some v ∧
      v.log = .answered 2 (.transition (effectIdOf 1) 4 .prepared
          [(text "evidence", .dict [(text "settlement_bound_elapsed", .bool true)])])
        (.ok { sampleEffect dayContract .prepared 5 with updatedAt := sampleTime 3 } :
          Except Exc EffectRecord) :: (lateDispatchWorld 3).log := ⟨_, rfl, rfl⟩
  obtain ⟨v, hs, hlog⟩ := hs
  exact absence_after_settlement (fun _ _ _ => rfl) (hmeets.reachableVia .start) hs hlog

/-- The clocks of the ledger and of the target agree, and do not go back. -/
def InAgreement (u : World Response Exc Procedure Reply (Shared InMemoryStore SimulatedTarget))
    (choice : Choice Procedure (Surroundings Delivery))
    (v : World Response Exc Procedure Reply (Shared InMemoryStore SimulatedTarget)) : Prop :=
  u.shared.target.now ≤ v.shared.target.now ∧
  match choice with
  | .answer _ surroundings => surroundings.now = u.shared.target.now
  | _ => True

instance (u : World Response Exc Procedure Reply (Shared InMemoryStore SimulatedTarget))
    (choice : Choice Procedure (Surroundings Delivery))
    (v : World Response Exc Procedure Reply (Shared InMemoryStore SimulatedTarget)) :
    Decidable (InAgreement u choice v) := by
  unfold InAgreement
  split <;> infer_instance

/-- An effect that waited for its dispatch longer than the bound goes back to `prepared` at
the time of its dispatch. -/
theorem absence_too_early : ∃ (u v : World Response Exc Procedure Reply
      (Shared InMemoryStore SimulatedTarget)) (choice : Choice Procedure (Surroundings Delivery))
      (c : Nat) (e : Str) (version : Int) (data : Items) (after : EffectRecord) (bound : Timedelta)
      (started : Datetime),
    (memoryBroker lossyAdapters).ReachableVia InAgreement
      (World.initial (.initial sampleHashes sampleKeys (.initial (sampleTime 0)))) u ∧
    (memoryBroker lossyAdapters).step u choice = some v ∧ InAgreement u choice v ∧
    v.log = .answered c (.transition e version .prepared data)
      (.ok after : Except Exc EffectRecord) :: u.log ∧
    after.contract.Valid ∧ after.contract.safety = .reconcilable ∧
    after.contract.settlementBound = some bound ∧ u.shared.store.latestStart e = some started ∧
    ¬Elapsed started bound u.shared.target.now := by
  have hmeets : (memoryBroker lossyAdapters).Meets InAgreement
      (World.initial (.initial sampleHashes sampleKeys (.initial (sampleTime 0)))) (lateDispatchRun 2) := by
    decide +kernel
  exact ⟨lateDispatchWorld 2, _, .answer 2 ⟨sampleTime 2, [], false, false, false, sampleTime 2⟩, 2,
    effectIdOf 1, 4, _, { sampleEffect dayContract .prepared 5 with updatedAt := sampleTime 2 },
    oneDay, sampleTime 2, hmeets.reachableVia .start, rfl,
    by decide +kernel, rfl, by decide, rfl, rfl, by decide +kernel, by decide +kernel⟩

end EffectBroker
