import EffectBroker.EventStream

/-!
# Success needs evidence

An effect only succeeds by the result of a dispatch or a probe that reported it
committed, or by the word of an operator, and the receipt says which.
-/
namespace EffectBroker
open Python Concurrency

/-! ## Evidence in a life -/

/-- What the moments before a success show, and the data recorded with it. -/
inductive Shown (mover : Mover) (e : Str) (ms : List Moment) : Items → Prop where
  | dispatched {attemptId result externalId output} :
      .dispatched mover.caller attemptId (.ok result) ∈ ms → result.committed = .ok true →
      result.externalId = .ok externalId → result.output = .ok output →
      Shown mover e ms [(text "attempt_id", .str attemptId), (text "external_id", externalId),
        (text "output", .dict output)]
  | probed {probe externalId output evidence} :
      .probed mover.caller (.ok probe) ∈ ms → probe.status = .ok (.known .committed) →
      probe.externalId = .ok externalId → probe.output = .ok output →
      probe.evidence = .ok evidence →
      Shown mover e ms [(text "external_id", externalId), (text "output", .dict (output.getD [])),
        (text "evidence", .dict evidence)]
  | resolved {tenantId evidence} :
      mover.procedure = some (.resolve tenantId e .succeeded evidence) →
      statusIn ms = some .manualReview →
      Shown mover e ms [(text "evidence", .dict evidence), (text "actor", text "operator")]

theorem nonCommitTarget_ne_succeeded (effect : EffectRecord) (attemptId : Str) :
    nonCommitTarget effect attemptId ≠ .succeeded := by
  unfold nonCommitTarget
  split <;> exact fun h => nomatch h

/-- A move to `succeeded` shows its evidence. -/
theorem Life.shown {e : Str} {mover : Mover} {after : EffectRecord} {data : Items}
    {ms : List Moment} {phase : Phase} (h : Life e (.moved mover after data :: ms) phase)
    (hs : after.status = .succeeded) : Shown mover e ms data := by
  obtain ⟨before, earlier, hlife, -, hmoved, -⟩ := h.of_moved rfl
  have hid := hlife.fits.effectId before hmoved.record?
  rw [hs] at hmoved
  cases hmoved with
  | started hp hstarts =>
    cases hstarts with
    | resolve hproc hreview =>
      refine .resolved (by rw [hp, hproc, hid]) ?_
      rw [hlife.statusIn]
      exact congrArg some hreview
  | settled hr hsettles =>
    generalize htarget : EffectStatus.succeeded = target at hsettles
    cases hsettles with
    | committed hc hx ho =>
      obtain ⟨older, rfl⟩ := hlife.of_dispatched_hold rfl
      exact .dispatched (List.mem_cons_self ..) hc hx ho
    | probeCommitted hc hx ho hv =>
      obtain ⟨older, rfl⟩ := hlife.of_probed_hold rfl
      exact .probed (List.mem_cons_self ..) hc hx ho hv
    | refused | nonCommit => exact absurd htarget.symm (nonCommitTarget_ne_succeeded _ _)
    | _ => cases htarget

/-! ## Receipts -/

namespace InMemoryStore
variable {s : InMemoryStore} {e : Str}

/-- The last success is the latest transition to `succeeded`. -/
theorem lastSuccess_eventsOf : lastSuccess (s.eventsOf e) =
    ((s.transitionsOf e).find? fun event =>
      (event.2.2.get? (str "to")).any (Value.isStr EffectStatus.succeeded.value)).map
      fun event => (((event.2.2.get? (str "metadata")).bind Value.items?).getD [], event.2.1) := by
  unfold lastSuccess transitionsOf
  rw [List.find?_map, List.find?_filter, Option.map_map]
  simp only [Bool.decide_and, Bool.decide_eq_true]
  rfl

theorem lastSuccess_of_transitionsOf {source : EffectStatus} {version : Nat} {at_ : Datetime}
    {data : Items} {rest : List (Nat × Datetime × Items)}
    (h : s.transitionsOf e = (version, at_, transitionData source .succeeded data) :: rest) :
    lastSuccess (s.eventsOf e) = some (data, at_) := by
  rw [lastSuccess_eventsOf, h, List.find?_cons]
  rfl

/-- The metadata of the receipt for the effect's own tenant. -/
def receiptMetadata (s : InMemoryStore) (tenantId effectId : Str) : Option Items :=
  ((s.receipt tenantId effectId).bind (·.get? (str "metadata"))).bind Value.items?

theorem receiptMetadata_eq {effect : EffectRecord} {data : Items} {at_ : Datetime}
    (hget : s.records.get? e = some effect) (hlast : lastSuccess (s.eventsOf e) = some (data, at_)) :
    s.receiptMetadata effect.tenantId e = some data := by
  have hown : s.get effect.tenantId e = some effect := by
    unfold get
    rw [hget]
    exact if_pos rfl
  unfold receiptMetadata receipt
  rw [hown, hlast]
  rfl

end InMemoryStore

/-! ## Evidence in the log -/

/-- What the log before a move of the effect `e` by the caller `c` shows, and the data
recorded with it: a dispatch that returned `committed=True`, a probe that returned
`COMMITTED`, or an operator who resolves the effect. -/
inductive Evidence (log : List BrokerEvent) (c : Nat) (e : Str) : Items → Prop where
  | dispatched {effect : EffectRecord} {attemptId result externalId output} :
      .answered c (.dispatch effect attemptId) (.ok result : Except Exc DispatchReturn) ∈ log →
      effect.effectId = e → result.committed = .ok true →
      result.externalId = .ok externalId → result.output = .ok output →
      Evidence log c e [(text "attempt_id", .str attemptId), (text "external_id", externalId),
        (text "output", .dict output)]
  | probed {effect : EffectRecord} {probe externalId output evidence} :
      .answered c (.probe effect) (.ok probe : Except Exc ProbeReturn) ∈ log →
      effect.effectId = e → probe.status = .ok (.known .committed) →
      probe.externalId = .ok externalId → probe.output = .ok output →
      probe.evidence = .ok evidence →
      Evidence log c e [(text "external_id", externalId), (text "output", .dict (output.getD [])),
        (text "evidence", .dict evidence)]
  | resolved {tenantId evidence} :
      .called c (.resolve tenantId e .succeeded evidence) ∈ log →
      statusIn (momentsOf e log) = some .manualReview →
      Evidence log c e [(text "evidence", .dict evidence), (text "actor", text "operator")]

/-- Evidence in the life is evidence in the log. -/
theorem Shown.evidence {log : List BrokerEvent} {c : Nat} {e : Str} {data : Items}
    (h : Shown (moverOf log c) e (momentsOf e log) data) : Evidence log c e data := by
  cases h with
  | dispatched hm hc hx ho =>
    obtain ⟨event, hevent, _, hmeans⟩ := mem_momentsOf hm
    cases hmeans with
    | dispatched hid => exact .dispatched hevent hid hc hx ho
  | probed hm hc hx ho hv =>
    obtain ⟨event, hevent, _, hmeans⟩ := mem_momentsOf hm
    cases hmeans with
    | probed hid => exact .probed hevent hid hc hx ho hv
  | resolved hp hreview => exact .resolved (mem_of_taskOf hp) hreview

section
variable {Target Decision : Type} {adapters : Adapters Target Decision} {hashes : Hashes}
  {tenantKeyProvider : TenantKeyProvider} {target : Target}
  {w : World Response Exc Procedure Reply (Shared InMemoryStore Target)}

/-- The life of an effect that succeeded ends with the move that made it succeed, which its
receipt tells. -/
theorem success_shown {e : Str} {effect : EffectRecord}
    (h : (memoryBroker adapters).Reachable (.initial hashes tenantKeyProvider target) w)
    (hget : w.shared.store.records.get? e = some effect) (hstatus : effect.status = .succeeded) :
    ∃ mover data ms, momentsOf e w.log = .moved mover effect data :: ms ∧ Shown mover e ms data ∧
      w.shared.store.receiptMetadata effect.tenantId e = some data := by
  obtain ⟨phase, hlife, hrec, -⟩ := (reachable_coherent h).tracked e
  obtain ⟨mover, data, ms, hms⟩ := hlife.last_move effect (hrec.symm.trans hget) (by rw [hstatus]; rfl)
    (by rw [hstatus]; rfl)
  -- the stream ends with the same transition
  have hstream := streamed_of_protocolRun (reachable_runs h).1 e
  rw [hms, transitionsIn, hstatus] at hstream
  rw [hms] at hlife
  exact ⟨mover, data, ms, hms, hlife.shown hstatus, InMemoryStore.receiptMetadata_eq hget
    (InMemoryStore.lastSuccess_of_transitionsOf hstream)⟩

/-- The move that a life ends with is a transition in the log. -/
theorem logged_of_moved {log : List BrokerEvent} {e : Str} {mover : Mover} {effect : EffectRecord}
    {data : Items} {ms : List Moment} (h : momentsOf e log = .moved mover effect data :: ms) :
    ∃ newer older c version status, log = newer ++ .answered c
        (.transition e version status data) (.ok effect : Except Exc EffectRecord) :: older ∧
      momentsOf e older = ms ∧ moverOf older c = mover := by
  obtain ⟨newer, event, older, hlog, hmeans, holder⟩ := momentsOf_eq_cons h
  cases hmeans with
  | moved => exact ⟨newer, older, _, _, _, hlog, holder, rfl⟩

/-- **Success needs evidence.**  Whatever the adapters do, the log before the transition
that made an effect succeed holds its evidence, and the receipt carries exactly the data
of that evidence. -/
theorem succeeded_has_evidence {e : Str} {effect : EffectRecord}
    (h : (memoryBroker adapters).Reachable (.initial hashes tenantKeyProvider target) w)
    (hget : w.shared.store.records.get? e = some effect) (hstatus : effect.status = .succeeded) :
    ∃ newer older c version status data, w.log = newer ++ .answered c
        (.transition e version status data) (.ok effect : Except Exc EffectRecord) :: older ∧
      Evidence older c e data ∧ w.shared.store.receiptMetadata effect.tenantId e = some data := by
  obtain ⟨mover, data, ms, hms, hshown, hreceipt⟩ := success_shown h hget hstatus
  obtain ⟨newer, older, c, version, status, hlog, rfl, rfl⟩ := logged_of_moved hms
  exact ⟨newer, older, c, version, status, data, hlog, hshown.evidence, hreceipt⟩

/-- A worker dispatches the sample effect, and the target commits. -/
def committedRun : List (Choice Procedure (Surroundings AnyAnswer)) :=
  let surroundings : Surroundings AnyAnswer := ⟨sampleTime 0, [], .ok (),
    .ok (DispatchResult.read ⟨some (str "ch_1"), [], true⟩), .error .overflowError⟩
  submitSample 0 (sampleContract .idempotent 0) surroundings ++
    claimSample 1 (sampleTime 0) surroundings ++ List.replicate 3 (.answer 1 surroundings)

theorem succeeded_has_evidence_sample :
    let w := sampleWorld committedRun
    ∃ newer older c version status data, w.log = newer ++ .answered c
        (.transition (effectIdOf 1) version status data)
        (.ok (sampleEffect (sampleContract .idempotent 0) .succeeded 3) :
          Except Exc EffectRecord) :: older ∧
      Evidence older c (effectIdOf 1) data ∧
      w.shared.store.receiptMetadata sampleTenant (effectIdOf 1) = some data :=
  succeeded_has_evidence (sampleWorld_reachable committedRun) (by rfl) rfl

end
end EffectBroker
