import EffectBroker.BrokerCalls
import EffectBroker.Cancellation

/-!
# Recovery

When a worker or a reconciler dies, the effects in its hands stay where they are.  Further
calls finish every effect that one of them accepts.  None accepts `dispatching` or
`reconciling`, so only the caller that has taken an effect there can bring it out again.  Nor
does any accept an effect that waits for a redispatch until a time beyond the last `datetime`.
-/
namespace EffectBroker
open Python Concurrency

/-! ## Further calls -/

/-- The calls that bring effects further. -/
def Procedure.drives : Procedure → Prop
  | .reconcile .. | .cancel .. | .resolve .. | .dispatchOnce .. => True
  | _ => False

/-- Some further calls, one after another, bring the effect to a terminal status, as adapters
and the clock may be. -/
def Recoverable (s : Shared InMemoryStore Unit) (e : Str) : Prop :=
  ∃ s', Calls (memoryBroker anyAdapters) (fun _ => True) Procedure.drives s s' ∧
    ∃ effect, s'.store.records.get? e = some effect ∧ isTerminal effect.status = true

/-- Some call accepts the effect: it is not in the hands of a caller, and the time until which
its key is retained, if it is the class that asks for it, is a `datetime`. -/
def Accepted (effect : EffectRecord) : Prop :=
  effect.status.isHeld = false ∧
    (effect.status = .outcomeUnknown → effect.contract.safety = .idempotent →
      ∀ retention, effect.contract.keyRetention = some retention →
        effect.createdAt.add retention ≠ none)

/-- Answer every request alike. -/
def answering (input : Surroundings AnyAnswer) (r : Request) (s : Shared InMemoryStore Unit) :
    Response r × Shared InMemoryStore Unit := serve memoryStore anyAdapters r input s

/-- What a call makes of the shared state. -/
def called (task : Procedure) (input : Surroundings AnyAnswer) (s : Shared InMemoryStore Unit) :
    Shared InMemoryStore Unit := (task.program.evaluate (answering input) s).2

section
variable {s s' : Shared InMemoryStore Unit} {e : Str} {effect : EffectRecord}

theorem Recoverable.of_terminal (hget : s.store.records.get? e = some effect)
    (h : isTerminal effect.status = true) : Recoverable s e := ⟨s, .none, effect, hget, h⟩

/-- Calls that come before. -/
theorem calls_trans {middle : Shared InMemoryStore Unit}
    (h : Calls (memoryBroker anyAdapters) (fun _ => True) Procedure.drives s middle)
    (h' : Calls (memoryBroker anyAdapters) (fun _ => True) Procedure.drives middle s') :
    Calls (memoryBroker anyAdapters) (fun _ => True) Procedure.drives s s' := by
  induction h' with
  | none => exact h
  | call _ htask hruns ih => exact ih.call htask hruns

/-- One call, and then what brings the effect further from there. -/
theorem Recoverable.call (task : Procedure) (input : Surroundings AnyAnswer) (htask : task.drives)
    (h : Recoverable (called task input s) e) : Recoverable s e := by
  obtain ⟨s', hcalls, hterminal⟩ := h
  obtain ⟨t, hruns⟩ := runs_evaluate (S := memoryBroker anyAdapters) input task.program [] s
  have hfirst : Calls (memoryBroker anyAdapters) (fun _ => True) Procedure.drives s
      (called task input s) := .call .none htask (hruns.weaken fun _ _ => trivial)
  exact ⟨s', calls_trans hfirst hcalls, hterminal⟩

/-! ## What single calls do -/

/-- The record of an effect is the ledger's, under its own id. -/
def Holds (s : Shared InMemoryStore Unit) (effect : EffectRecord) : Prop :=
  s.store.records.get? effect.effectId = some effect

theorem get_of_holds (h : Holds s effect) :
    s.store.get effect.tenantId effect.effectId = some effect := by
  unfold InMemoryStore.get
  rw [h]
  exact if_pos rfl

theorem holds_moved (target : EffectStatus) (now : Datetime) (data : Items) (metrics : Metrics) :
    Holds ⟨s.store.moveRecord effect now effect.effectId target data, metrics, s.target⟩
      (movedRecord effect target now) :=
  (InMemoryStore.moveRecord_records ..).trans (if_pos rfl)

/-- A metric changes no record. -/
theorem evaluate_record (input : Surroundings AnyAnswer) (metric : Metric)
    (h : Holds s effect) : ∃ s',
    (Program.record metric).evaluate (answering input) s = (.ok (), s') ∧ Holds s' effect :=
  ⟨{ s with metrics := s.metrics.record metric }, rfl, h⟩

/-- A lookup by the tenant of the effect finds it. -/
theorem evaluate_get (input : Surroundings AnyAnswer) (h : Holds s effect) :
    (Broker.get effect.tenantId effect.effectId).evaluate (answering input) s = (.ok effect, s) := by
  have hget : answering input (.get effect.tenantId effect.effectId) s =
      (.ok (some effect), s) := by
    rw [← get_of_holds h]
    rfl
  simp only [Broker.get, Program.get, Coroutine.evaluate_bind, Coroutine.evaluate_request,
    Coroutine.evaluate_ofExcept, hget, Coroutine.evaluate_pure]

/-- A move along an edge succeeds. -/
theorem evaluate_transition (input : Surroundings AnyAnswer) {target : EffectStatus}
    (h : Holds s effect) (hedge : isAllowed effect.status target = true) (data : Items) : ∃ s',
    (Program.transition effect.effectId effect.version target data).evaluate (answering input) s =
      (.ok (movedRecord effect target input.now), s') ∧
    Holds s' (movedRecord effect target input.now) := by
  refine ⟨⟨s.store.moveRecord effect input.now effect.effectId target data, s.metrics, s.target⟩,
    ?_, holds_moved target input.now data s.metrics⟩
  have hmove : answering input (.transition effect.effectId effect.version target data) s =
      (.ok (movedRecord effect target input.now),
        ⟨s.store.moveRecord effect input.now effect.effectId target data, s.metrics, s.target⟩) := by
    simp only [answering, serve, memoryStore, InMemoryStore.transition_ok h hedge input.now data]
  simp only [Program.transition, Coroutine.evaluate_bind, Coroutine.evaluate_request, hmove,
    Coroutine.evaluate_ofExcept]

/-- A recorded move along an edge succeeds. -/
theorem evaluate_transitionAndRecord (input : Surroundings AnyAnswer) {target : EffectStatus}
    (h : Holds s effect) (hedge : isAllowed effect.status target = true) (data : Items) : ∃ s',
    (transitionAndRecord effect target data).evaluate (answering input) s =
      (.ok (movedRecord effect target input.now), s') ∧
    Holds s' (movedRecord effect target input.now) := by
  obtain ⟨s₁, hmove, hholds⟩ := evaluate_transition input h hedge data
  obtain ⟨s₂, hrecord, hholds⟩ := evaluate_record input
    (.transition effect (movedRecord effect target input.now)) hholds
  refine ⟨s₂, ?_, hholds⟩
  simp only [transitionAndRecord, Coroutine.evaluate_bind, Coroutine.evaluate_tryCatch, hmove,
    hrecord, Coroutine.evaluate_pure]

/-- Cancel an effect that is not in flight. -/
theorem called_cancel (input : Surroundings AnyAnswer) (h : Holds s effect)
    (hclaimable : effect.status.isClaimable = true)
    (actor reason : Str) :
    Holds (called (.cancel effect.tenantId effect.effectId effect.version actor reason) input s)
      (movedRecord effect .cancelled input.now) := by
  have hedge : isAllowed effect.status .cancelled = true := by
    rcases EffectStatus.isClaimable_iff.mp hclaimable with hs | hs <;> rw [hs] <;> rfl
  obtain ⟨s₁, hmove, hholds⟩ := evaluate_transition input h hedge
    [(text "actor", .str actor), (text "reason", .str reason)]
  obtain ⟨s₂, hrecord, hholds⟩ := evaluate_record input
    (.transition effect (movedRecord effect .cancelled input.now)) hholds
  simp only [called, Procedure.program, Broker.cancel, Coroutine.evaluate_bind, evaluate_get input h,
    ne_eq, not_true_eq_false, if_false, hclaimable, Bool.not_true, Bool.false_eq_true, hmove,
    hrecord, Coroutine.evaluate_pure]
  exact hholds

/-- Resolve an effect in review. -/
theorem called_resolve (input : Surroundings AnyAnswer) (h : Holds s effect)
    (hreview : effect.status = .manualReview)
    (evidence : Items) :
    Holds (called (.resolve effect.tenantId effect.effectId .failedFinal evidence) input s)
      (movedRecord effect .failedFinal input.now) := by
  have hedge : isAllowed effect.status .failedFinal = true := by
    rw [hreview]
    rfl
  obtain ⟨s₁, hmove, hholds⟩ := evaluate_transition input h hedge
    [(text "evidence", .dict evidence), (text "actor", text "operator")]
  simp only [called, Procedure.program, Broker.resolve, Coroutine.evaluate_bind, evaluate_get input h,
    hreview, ne_eq, not_true_eq_false, if_false, Broker.isResolution, Bool.not_true,
    Bool.false_eq_true, hmove, Coroutine.evaluate_pure]
  exact hholds

/-! ## What a reconciliation does -/

/-- The answers under which a call commits: the clock shows `now`. -/
def committing (now : Datetime) : Surroundings AnyAnswer where
  now := now
  uuid := []
  decision := ⟨.ok (), .ok ⟨.ok true, .ok .none, .ok []⟩,
    .ok ⟨.ok (.known .committed), .ok .none, .ok none, .ok []⟩⟩

/-- A broker that may reconcile. -/
def reconciler : Broker := ⟨⟨.empty⟩, true⟩

/-- The program leaves an effect in the ledger as it says. -/
def Leads (input : Surroundings AnyAnswer) (s : Shared InMemoryStore Unit)
    (p : Program EffectRecord) (after : EffectRecord) : Prop :=
  ∃ s', p.evaluate (answering input) s = (.ok after, s') ∧ Holds s' after

theorem called_reconcile {input : Surroundings AnyAnswer} {after : EffectRecord} (h : Holds s effect)
    (hleads : Leads input s (reconcileOnce effect) after) :
    Holds (called (.reconcile reconciler effect.tenantId effect.effectId) input s) after := by
  obtain ⟨s', heval, hholds⟩ := hleads
  simp only [called, Procedure.program, Broker.reconcile, reconciler, if_true,
    Coroutine.evaluate_bind, evaluate_get input h, heval, Coroutine.evaluate_pure]
  exact hholds

/-- A class that only an operator resolves. -/
theorem leads_handOver (input : Surroundings AnyAnswer) (h : Holds s effect)
    (hunknown : effect.status = .outcomeUnknown) :
    Leads input s (handOver effect) (movedRecord effect .manualReview input.now) := by
  have hedge : isAllowed effect.status .manualReview = true := by
    rw [hunknown]
    rfl
  obtain ⟨s₁, hrecord, hholds⟩ := evaluate_record input
    (.reconciliationOutcome (str "unsafe_unknown")) h
  obtain ⟨s₂, hmove, hholds⟩ := evaluate_transitionAndRecord input hholds hedge
    [(text "reason", text "unsafe_unknown")]
  refine ⟨s₂, ?_, hholds⟩
  simp only [handOver, recordOutcome, Coroutine.evaluate_bind, hrecord, hmove]

/-- Building an adapter, and its calls. -/
theorem evaluate_adapterFor (now : Datetime) (effect : EffectRecord) (s : Shared InMemoryStore Unit) :
    (Program.adapterFor effect).evaluate (answering (committing now)) s = (.ok (), s) := rfl

theorem evaluate_probe (now : Datetime) (effect : EffectRecord) (s : Shared InMemoryStore Unit) :
    (Program.probe effect).evaluate (answering (committing now)) s =
      (.ok ⟨.ok (.known .committed), .ok .none, .ok none, .ok []⟩, s) := rfl

theorem answering_dispatch (now : Datetime) (effect : EffectRecord) (attemptId : Str)
    (s : Shared InMemoryStore Unit) :
    answering (committing now) (.dispatch effect attemptId) s =
      (.ok ⟨.ok true, .ok .none, .ok []⟩, s) := rfl

theorem evaluate_clock (now : Datetime) (s : Shared InMemoryStore Unit) :
    Program.clock.evaluate (answering (committing now)) s = (.ok now, s) := rfl

/-- An attempt of an effect starts, and no record changes. -/
theorem evaluate_startAttempt (input : Surroundings AnyAnswer) (h : Holds s effect)
    (workerId : Str) : ∃ attemptId s',
    (Program.startAttempt effect.effectId effect.version workerId).evaluate (answering input) s =
      (.ok attemptId, s') ∧ Holds s' effect := by
  refine ⟨attemptIdOf effect.effectId ((s.store.attemptsOf effect.effectId).length + 1),
    ⟨s.store.addAttempt effect input.now effect.effectId workerId, s.metrics, s.target⟩, ?_, h⟩
  have hstart : answering input (.startAttempt effect.effectId effect.version workerId) s =
      (.ok (attemptIdOf effect.effectId ((s.store.attemptsOf effect.effectId).length + 1)),
        ⟨s.store.addAttempt effect input.now effect.effectId workerId, s.metrics, s.target⟩) := by
    simp only [answering, serve, memoryStore, InMemoryStore.startAttempt,
      InMemoryStore.recordForUpdate_ok.mpr ⟨h, rfl⟩]
    rfl
  simp only [Program.startAttempt, Coroutine.evaluate_bind, Coroutine.evaluate_request, hstart,
    Coroutine.evaluate_ofExcept]

/-- A class that probes, when the probe finds the effect. -/
theorem leads_probeTarget (now : Datetime) (h : Holds s effect)
    (hunknown : effect.status = .outcomeUnknown) :
    Leads (committing now) s (probeTarget effect)
      (movedRecord (movedRecord effect .reconciling now) .succeeded now) := by
  have hedge : isAllowed effect.status .reconciling = true := by
    rw [hunknown]
    rfl
  obtain ⟨s₁, hmove, hholds⟩ := evaluate_transitionAndRecord (committing now) h hedge
    [(text "reason", text "authoritative_probe")]
  obtain ⟨s₂, hrecord, hholds⟩ := evaluate_record (committing now)
    (.reconciliationOutcome ProbeStatus.committed.value) hholds
  obtain ⟨s₃, hsettle, hholds⟩ := evaluate_transitionAndRecord (committing now) hholds
    (show isAllowed EffectStatus.reconciling .succeeded = true from rfl)
    [(text "external_id", .none), (text "output", .dict []), (text "evidence", .dict [])]
  refine ⟨s₃, ?_, hholds⟩
  simp only [probeTarget, recordProbe, recordOutcome, Coroutine.evaluate_bind,
    Coroutine.evaluate_ofExcept, hmove, evaluate_adapterFor, evaluate_probe, ReportedStatus.label,
    hrecord, Option.getD_none, hsettle]
  rfl

/-- A class that redispatches, when its key is retained and the target commits. -/
theorem leads_redispatch {retention : Timedelta} {horizon : Datetime} (h : Holds s effect)
    (hunknown : effect.status = .outcomeUnknown)
    (hretention : effect.contract.keyRetention = some retention)
    (hhorizon : effect.createdAt.add retention = some horizon) :
    Leads (committing horizon) s (redispatch effect)
      (movedRecord (movedRecord effect .dispatching horizon) .succeeded horizon) := by
  have hedge : isAllowed effect.status .dispatching = true := by
    rw [hunknown]
    rfl
  obtain ⟨s₁, hremaining, hholds⟩ := evaluate_record (committing horizon)
    (.retentionRemaining (horizon.sub horizon)) h
  obtain ⟨s₂, hmove, hholds⟩ := evaluate_transitionAndRecord (committing horizon) hholds hedge
    [(text "reason", text "idempotent_redispatch")]
  obtain ⟨attemptId, s₃, hstart, hholds⟩ := evaluate_startAttempt (committing horizon) hholds
    (str "reconciler")
  obtain ⟨s₄, hattempt, hholds⟩ := evaluate_record (committing horizon)
    (.dispatchAttempt (movedRecord effect .dispatching (committing horizon).now)) hholds
  obtain ⟨s₅, hrecord, hholds⟩ := evaluate_record (committing horizon)
    (.reconciliationOutcome (str "redispatch_committed")) hholds
  obtain ⟨s₆, hsettle, hholds⟩ := evaluate_transitionAndRecord (committing horizon) hholds
    (show isAllowed EffectStatus.dispatching .succeeded = true from rfl)
    [(text "attempt_id", .str attemptId), (text "external_id", .none), (text "output", .dict [])]
  refine ⟨s₆, ?_, hholds⟩
  have hadd : ∀ s, (Program.addTime effect.createdAt retention).evaluate
      (answering (committing horizon)) s = (.ok horizon, s) := by
    intro s
    rw [Program.addTime, hhorizon]
    rfl
  simp only [redispatch, recordRetentionRemaining, keyRetentionValid, hretention,
    Coroutine.evaluate_bind, hadd, evaluate_clock, hremaining, le_refl, decide_true, if_true,
    Coroutine.evaluate_pure, hmove, hstart, hattempt, evaluate_adapterFor,
    Coroutine.evaluate_request, answering_dispatch, recordRedispatch, Coroutine.evaluate_ofExcept,
    recordOutcome, hrecord, transitionCommitted, hsettle]
  rfl

/-- A class that redispatches, without a time until which its key is retained. -/
theorem leads_unretained (input : Surroundings AnyAnswer) (h : Holds s effect)
    (hunknown : effect.status = .outcomeUnknown) (hretention : effect.contract.keyRetention = none) :
    Leads input s (redispatch effect) (movedRecord effect .manualReview input.now) := by
  have hedge : isAllowed effect.status .manualReview = true := by
    rw [hunknown]
    rfl
  obtain ⟨s₁, hremaining, hholds⟩ := evaluate_record input (.retentionRemaining .zero) h
  obtain ⟨s₂, hrecord, hholds⟩ := evaluate_record input
    (.reconciliationOutcome (str "retention_expired")) hholds
  obtain ⟨s₃, hmove, hholds⟩ := evaluate_transitionAndRecord input hholds hedge
    [(text "reason", text "idempotency_key_retention_expired")]
  refine ⟨s₃, ?_, hholds⟩
  simp only [redispatch, recordRetentionRemaining, keyRetentionValid, hretention,
    Coroutine.evaluate_bind, hremaining, Coroutine.evaluate_pure, Bool.false_eq_true, if_false,
    recordOutcome, hrecord, hmove]

/-! ## Recovery -/

theorem recoverable_of_review (h : Holds s effect) (hreview : effect.status = .manualReview) :
    Recoverable s effect.effectId :=
  .call (.resolve effect.tenantId effect.effectId .failedFinal []) (committing effect.createdAt)
    trivial (.of_terminal (called_resolve _ h hreview []) rfl)

/-- A reconciliation that leads to a record from which the effect is recovered. -/
theorem recoverable_of_leads {input : Surroundings AnyAnswer} {after : EffectRecord}
    (h : Holds s effect) (hleads : Leads input s (reconcileOnce effect) after)
    (hid : after.effectId = effect.effectId)
    (hafter : ∀ {s}, Holds s after → Recoverable s after.effectId) :
    Recoverable s effect.effectId := by
  have hrecoverable := hafter (called_reconcile h hleads)
  rw [hid] at hrecoverable
  exact .call (.reconcile reconciler effect.tenantId effect.effectId) input trivial hrecoverable

/-- An effect whose outcome is unknown, by its class. -/
theorem recoverable_of_unknown (h : Holds s effect) (hunknown : effect.status = .outcomeUnknown)
    (hretained : effect.contract.safety = .idempotent → ∀ retention,
      effect.contract.keyRetention = some retention → effect.createdAt.add retention ≠ none) :
    Recoverable s effect.effectId := by
  have review : ∀ {s : Shared InMemoryStore Unit} {now : Datetime},
      Holds s (movedRecord effect .manualReview now) →
        Recoverable s (movedRecord effect .manualReview now).effectId :=
    fun h => recoverable_of_review h rfl
  have done : ∀ {s : Shared InMemoryStore Unit} {middle : EffectRecord} {now : Datetime},
      Holds s (movedRecord middle .succeeded now) →
        Recoverable s (movedRecord middle .succeeded now).effectId :=
    fun h => .of_terminal h rfl
  cases hsafety : effect.contract.safety with
  | idempotent =>
    have hroute : reconcileOnce effect = redispatch effect := by
      rw [reconcileOnce, hsafety]
      rfl
    cases hretention : effect.contract.keyRetention with
    | none =>
      have hleads := leads_unretained (committing effect.createdAt) h hunknown hretention
      rw [← hroute] at hleads
      exact recoverable_of_leads h hleads rfl review
    | some retention =>
      obtain ⟨horizon, hhorizon⟩ := Option.ne_none_iff_exists'.mp (hretained hsafety _ hretention)
      have hleads := leads_redispatch h hunknown hretention hhorizon
      rw [← hroute] at hleads
      exact recoverable_of_leads h hleads rfl done
  | reconcilable | transactional =>
    have hroute : reconcileOnce effect = probeTarget effect := by
      rw [reconcileOnce, hsafety]
      rfl
    have hleads := leads_probeTarget effect.createdAt h hunknown
    rw [← hroute] at hleads
    exact recoverable_of_leads h hleads rfl done
  | unsafeClass =>
    have hroute : reconcileOnce effect = handOver effect := by
      rw [reconcileOnce, hsafety]
      rfl
    have hleads := leads_handOver (committing effect.createdAt) h hunknown
    rw [← hroute] at hleads
    exact recoverable_of_leads h hleads rfl review

/-- **What some call accepts can be finished.** -/
theorem recoverable_of_accepted (h : Holds s effect) (haccepted : Accepted effect) :
    Recoverable s effect.effectId := by
  obtain ⟨hrests, hretained⟩ := haccepted
  have cancels : effect.status.isClaimable = true → Recoverable s effect.effectId := fun hc =>
    .call (.cancel effect.tenantId effect.effectId effect.version [] []) (committing effect.createdAt)
      trivial (.of_terminal (called_cancel _ h hc [] []) rfl)
  have terminal : isTerminal effect.status = true → Recoverable s effect.effectId :=
    fun ht => .of_terminal h ht
  cases hstatus : effect.status with
  | prepared | retryable => exact cancels (by rw [hstatus]; rfl)
  | dispatching | reconciling =>
    rw [hstatus] at hrests
    cases hrests
  | outcomeUnknown => exact recoverable_of_unknown h hstatus (hretained hstatus)
  | manualReview => exact recoverable_of_review h hstatus
  | succeeded | failedFinal | cancelled | compensated => exact terminal (by rw [hstatus]; rfl)

end

/-! ## Effects whose key is retained for ever -/

/-- The time until which the key of the effect is retained is beyond the last `datetime`, so the
check before a redispatch raises. -/
structure RetainedForever (effect : EffectRecord) : Prop where
  status : effect.status = .outcomeUnknown
  safety : effect.contract.safety = .idempotent
  horizon : ∃ retention, effect.contract.keyRetention = some retention ∧
    effect.createdAt.add retention = none

/-- The only effects that no call accepts. -/
theorem held_or_retained (effect : EffectRecord) (h : ¬Accepted effect) :
    effect.status.isHeld = true ∨ RetainedForever effect := by
  by_contra hnot
  obtain ⟨hrests, hdated⟩ := not_or.mp hnot
  exact h ⟨Bool.eq_false_iff.mpr hrests, fun hstatus hsafety retention hretention hnone =>
    hdated ⟨hstatus, hsafety, retention, hretention, hnone⟩⟩

/-- The ledger has the effect so. -/
structure Stays (e : Str) (effect : EffectRecord) (s : Shared InMemoryStore Unit) : Prop where
  kept : s.store.Kept
  record : s.store.records.get? e = some effect

/-- Run while nobody else acts, the program leaves the effect as it is. -/
abbrev LeavesAlone {α : Type} (e : Str) (effect : EffectRecord) (p : Program α) (P : α → Prop) :
    Prop :=
  Keeps (memoryBroker anyAdapters) alone (fun _ => True) (fun _ => Stays e effect) p P

section
variable {e : Str} {effect : EffectRecord} {s : Shared InMemoryStore Unit}

theorem Stays.effectId (h : Stays e effect s) : effect.effectId = e :=
  h.kept.effectId e effect h.record

/-- Every call keeps the tables together, so only the record is in question. -/
theorem Stays.serve (h : Stays e effect s) (r : Request) (input : Surroundings AnyAnswer)
    (hrecord : (serve memoryStore anyAdapters r input s).2.store.records.get? e =
      s.store.records.get? e) :
    Stays e effect (serve memoryStore anyAdapters r input s).2 := by
  refine ⟨?_, hrecord.trans h.record⟩
  rcases serve_storeCall anyAdapters r input s with heq | ⟨c, heq⟩ <;> rw [heq]
  · exact h.kept
  · exact (InMemoryStore.serve_spec h.kept c).1

theorem spares_stays : Spares memoryStore anyAdapters alone (fun _ => True) e
    fun _ => Stays e effect := by
  intro r hr t s h
  refine always_request.mpr ?_
  rintro s input rfl -
  have hserved : (serve memoryStore anyAdapters r input s).2.store.records.get? e =
        s.store.records.get? e ∧ r.returns (serve memoryStore anyAdapters r input s).1 := by
    cases r with
    | transition effectId expectedVersion target data =>
      simp only [EffectBroker.serve, memoryStore]
      rcases s.store.transition_cases input.now effectId expectedVersion target data with
        ⟨exc, heq, -⟩ | ⟨record, hget, -, -, heq⟩ <;> rw [heq]
      · refine ⟨rfl, fun _ hok => ?_⟩
        cases hok
      · refine ⟨(InMemoryStore.moveRecord_records ..).trans (if_neg (Ne.symm hr)), fun _ hok => ?_⟩
        cases hok
        exact h.kept.effectId effectId record hget
    | startAttempt effectId expectedVersion workerId =>
      simp only [EffectBroker.serve, memoryStore]
      rcases s.store.startAttempt_cases input.now effectId expectedVersion workerId with
        ⟨exc, heq⟩ | ⟨record, -, -, heq⟩ <;> rw [heq] <;> exact ⟨rfl, trivial⟩
    | reserve | claimDue | get => cases hr
    | clock | adapterFor | dispatch | probe | record => exact ⟨rfl, trivial⟩
  refine ⟨h.serve r input hserved.1, fun _ hok => ?_⟩
  cases hok
  exact hserved.2

/-- A claim leaves an effect that it may not have, and does not return it. -/
theorem leaves_claimDue (hclaimable : effect.status.isClaimable = false) {workerId : Str}
    {now : Datetime} {leaseFor : Timedelta} {limit : Int} :
    LeavesAlone e effect (Program.claimDue workerId now leaseFor limit)
      fun claimed => ∀ r ∈ claimed, r.effectId ≠ e := by
  intro t s h
  refine always_claimDue.mpr ?_
  rintro s input rfl -
  obtain ⟨hclaims, hresults⟩ := s.store.claimDue_spec workerId now leaseFor limit
  have hrecord : (s.store.claimDue workerId now leaseFor limit).2.records.get? e =
      s.store.records.get? e := by
    rcases hclaims.records e with hsame | ⟨record, hget, hc, -⟩
    · exact hsame
    · rw [h.record] at hget
      cases hget
      rw [hclaimable] at hc
      cases hc
  refine ⟨h.serve (.claimDue workerId now leaseFor limit) input hrecord, fun claimed hok r hr he => ?_⟩
  obtain ⟨e', record, hget, hc, rfl, -⟩ := hresults claimed hok r hr
  have hid : e' = e := (h.kept.effectId e' record hget).symm.trans he
  rw [hid, h.record] at hget
  cases hget
  rw [hclaimable] at hc
  cases hc

/-- A lookup finds an effect under its own id, and this effect as it is. -/
theorem leaves_get {tenantId effectId : Str} :
    LeavesAlone e effect (Broker.get tenantId effectId)
      fun found => found.effectId ≠ e ∨ found = effect := by
  refine Keeps.bind (P := fun found => ∀ r, found = some r → r.effectId ≠ e ∨ r = effect)
    (fun t s h => ?_) fun found hfound => ?_
  · refine always_get.mpr ?_
    rintro s input rfl -
    refine ⟨h, fun found hok r hr => ?_⟩
    cases hok
    have hget := InMemoryStore.get_some hr
    by_cases he : effectId = e
    · rw [he, h.record] at hget
      exact .inr (Option.some.inj hget).symm
    · exact .inl fun hid => he ((h.kept.effectId _ _ hget).symm.trans hid)
  · cases found with
    | none => exact keeps_throw
    | some record => exact keeps_pure (hfound record rfl)

/-- A reconciliation of such an effect raises before it does anything. -/
theorem reconcileOnce_retained (h : RetainedForever effect) :
    reconcileOnce effect = throw .overflowError := by
  obtain ⟨retention, hretention, hnone⟩ := h.horizon
  have hremaining : recordRetentionRemaining effect = throw .overflowError := by
    unfold recordRetentionRemaining Program.addTime
    simp only [hretention, hnone]
    rfl
  rw [reconcileOnce, h.safety]
  show redispatch effect = _
  rw [redispatch, hremaining]
  rfl

theorem leaves_dispatchAll {workerId : Str} {claimed : List EffectRecord}
    (h : ∀ r ∈ claimed, r.effectId ≠ e) :
    LeavesAlone e effect (dispatchAll workerId claimed) fun _ => True := by
  induction claimed with
  | nil => exact keeps_pure trivial
  | cons r claimed ih =>
    obtain ⟨hr, hrest⟩ := List.forall_mem_cons.mp h
    exact (spares_stays.dispatchEffect hr).bind fun _ _ => (ih hrest).bind fun _ _ =>
      keeps_pure trivial

/-- No call of the broker or its worker moves such an effect. -/
theorem leaves_program (h : RetainedForever effect) {task : Procedure} (htask : task.drives) :
    LeavesAlone e effect task.program fun _ => True := by
  have hclaimable : effect.status.isClaimable = false := by
    rw [h.status]
    rfl
  have moves : ∀ {effectId : Str} {version : Int} {target : EffectStatus} {data : Items},
      effectId ≠ e → LeavesAlone e effect (Program.transition effectId version target data)
        fun _ => True := fun he => spares_stays.read he
  cases task with
  | submit | get => cases htask
  | reconcile broker tenantId effectId =>
    refine Keeps.bind (P := fun _ => True) ?_ fun _ _ => keeps_pure trivial
    unfold Broker.reconcile
    split
    · refine leaves_get.bind fun found hfound => ?_
      rcases hfound with hother | rfl
      · exact spares_stays.reconcileOnce hother
      · rw [reconcileOnce_retained h]
        exact keeps_throw
    · exact keeps_throw
  | cancel tenantId effectId expectedVersion actor reason =>
    refine Keeps.bind (P := fun _ => True) ?_ fun _ _ => keeps_pure trivial
    refine leaves_get.bind fun found hfound => ?_
    split
    · exact keeps_throw
    · split
      · exact keeps_throw
      · rename_i hfoundClaimable
        rcases hfound with hother | rfl
        · exact (moves hother).bind fun _ _ => spares_stays.record.bind fun _ _ => keeps_pure trivial
        · rw [hclaimable] at hfoundClaimable
          exact absurd rfl hfoundClaimable
  | resolve tenantId effectId resolution evidence =>
    refine Keeps.bind (P := fun _ => True) ?_ fun _ _ => keeps_pure trivial
    refine leaves_get.bind fun found hfound => ?_
    split
    · exact keeps_throw
    · rename_i hreview
      split
      · exact keeps_throw
      · rcases hfound with hother | rfl
        · exact moves hother
        · rw [h.status] at hreview
          exact absurd (by decide) hreview
  | dispatchOnce workerId now leaseFor limit =>
    refine Keeps.bind (P := fun _ => True) ?_ fun _ _ => keeps_pure trivial
    exact (leaves_claimDue hclaimable).bind fun claimed hclaimed => leaves_dispatchAll hclaimed

theorem stays_through_calls {s' : Shared InMemoryStore Unit} (h : RetainedForever effect)
    (hstays : Stays e effect s)
    (hcalls : Calls (memoryBroker anyAdapters) (fun _ => True) Procedure.drives s s') :
    Stays e effect s' := by
  induction hcalls with
  | none => exact hstays
  | call _ htask hruns ih => exact (hruns.satisfies (leaves_program h htask [] _ ih)).1

theorem not_recoverable_of_retained (h : RetainedForever effect) (hstays : Stays e effect s) :
    ¬Recoverable s e := by
  rintro ⟨s', hcalls, found, hfound, hterminal⟩
  rw [(stays_through_calls h hstays hcalls).record] at hfound
  cases hfound
  rw [h.status] at hterminal
  cases hterminal

end

/-! ## Effects in somebody's hands -/

/-- Calls that come one after another are a piece of an interleaving, of callers that were not
there. -/
theorem reachable_of_calls {Target Decision : Type} {adapters : Adapters Target Decision}
    {hashes : Hashes} {tenantKeyProvider : TenantKeyProvider} {target : Target}
    {w : World Response Exc Procedure Reply (Shared InMemoryStore Target)}
    {s' : Shared InMemoryStore Target} {I : Surroundings Decision → Prop} {T : Procedure → Prop}
    (h : (memoryBroker adapters).Reachable (.initial hashes tenantKeyProvider target) w)
    (hcalls : Calls (memoryBroker adapters) I T w.shared s') :
    ∃ w' newer, (memoryBroker adapters).ReachableFrom w w' ∧ w'.shared = s' ∧
      w'.log = newer ++ w.log ∧ ∀ event ∈ newer, w.callers event.caller = .absent := by
  obtain ⟨n, hn⟩ := h.exists_absent
  induction hcalls with
  | none => exact ⟨w, [], .start, rfl, rfl, List.forall_mem_nil _⟩
  | call _ _ hruns ih =>
    obtain ⟨middle, older, hmiddle, hshared, hlog, hcallers⟩ := ih
    have hreachable := System.ReachableFrom.trans _ h hmiddle
    -- the caller is new to both worlds
    obtain ⟨m, hm⟩ := hreachable.exists_absent
    have habsent := hm (max n m) (le_max_right n m)
    have hidle := (reachable_runs hreachable).2 (max n m)
    rw [habsent] at hidle
    obtain ⟨w', newer, hw', hshared', hlog', hnewer, -⟩ := hruns.called hshared habsent hidle.2
    refine ⟨w', newer ++ older, System.ReachableFrom.trans _ hmiddle hw', hshared', ?_,
      fun event hmem => ?_⟩
    · rw [hlog', hlog, List.append_assoc]
    · rcases List.mem_append.mp hmem with hmem | hmem
      · rw [hnewer event hmem]
        exact hn _ (le_max_left n m)
      · exact hcallers event hmem

/-- What others do leaves a caller as it is. -/
theorem localOf_of_others {newer log : List BrokerEvent} {c : Nat}
    (h : ∀ event ∈ newer, event.caller ≠ c) :
    localOf callerProtocol (newer ++ log) c = localOf callerProtocol log c := by
  induction newer with
  | nil => rfl
  | cons event newer ih =>
    obtain ⟨hne, hrest⟩ := List.forall_mem_cons.mp h
    have hsame := ih hrest
    cases event with
    | called d procedure => exact (if_neg (Ne.symm hne)).trans hsame
    | answered d r response => exact (if_neg (Ne.symm hne)).trans hsame
    | began | landed | stopped => exact hsame

section
variable {hashes : Hashes} {tenantKeyProvider : TenantKeyProvider} {e : Str} {effect : EffectRecord}
  {w : World Response Exc Procedure Reply (Shared InMemoryStore Unit)}

/-- An effect in the hands of a caller stays there, whatever others call. -/
theorem held_through_calls {s' : Shared InMemoryStore Unit}
    (h : (memoryBroker anyAdapters).Reachable (.initial hashes tenantKeyProvider ()) w)
    (hget : w.shared.store.records.get? e = some effect) (hheld : effect.status.isHeld = true)
    (hcalls : Calls (memoryBroker anyAdapters) (fun _ => True) Procedure.drives w.shared s') :
    s'.store.records.get? e = some effect := by
  obtain ⟨w', newer, hw', rfl, hlog, hcallers⟩ := reachable_of_calls h hcalls
  obtain ⟨phase, hlife, hrec, hheldBy⟩ := (reachable_coherent h).tracked e
  rw [hget] at hrec
  cases phase with
  | unborn => cases hrec
  | resting record =>
    cases hrec
    rw [hlife.fits.resting effect rfl] at hheld
    cases hheld
  | held c hold calling =>
    obtain ⟨hhold, -⟩ := hheldBy.hold c hold calling rfl
    have hid : (holdOf w.log c).effectId? = some e := by
      rw [hhold, Hold.effectId?, ← (show some effect = hold.record? from hrec), Option.map_some,
        hlife.fits.effectId effect hrec.symm]
    -- the holder is there, so the new callers are others
    have hpresent : w.callers c ≠ .absent := by
      intro habsent
      have hidle := (reachable_runs h).2 c
      rw [habsent] at hidle
      rw [holdOf, hidle.1] at hid
      cases hid
    have hlocal : localOf callerProtocol w'.log c = localOf callerProtocol w.log c := by
      rw [hlog]
      refine localOf_of_others fun event hmem heq => hpresent ?_
      rw [← heq]
      exact hcallers event hmem
    have hsame : holdOf w'.log c = holdOf w.log c := by
      unfold holdOf
      rw [hlocal]
    have hcoherent := reachable_coherent (System.ReachableFrom.trans _ h hw')
    obtain ⟨-, -, hrecord, -⟩ := (hcoherent.tracked e).holder (hsame ▸ hid)
    rw [hrecord, hsame, hhold]
    exact hrec.symm

theorem not_recoverable_of_held
    (h : (memoryBroker anyAdapters).Reachable (.initial hashes tenantKeyProvider ()) w)
    (hget : w.shared.store.records.get? e = some effect) (hheld : effect.status.isHeld = true) :
    ¬Recoverable w.shared e := by
  rintro ⟨s', hcalls, found, hfound, hterminal⟩
  rw [held_through_calls h hget hheld hcalls] at hfound
  cases hfound
  revert hheld hterminal
  cases effect.status <;> decide

/-- **Unfinished effects stay recoverable** just while nobody holds them and, if the class
redispatches, the time until which the key is retained is a `datetime`. -/
theorem accepted_recoverable
    (h : (memoryBroker anyAdapters).Reachable (.initial hashes tenantKeyProvider ()) w)
    (hget : w.shared.store.records.get? e = some effect) :
    Recoverable w.shared e ↔ Accepted effect := by
  obtain ⟨log, hrun⟩ := reachable_storeRun h
  have hstays : Stays e effect w.shared := ⟨InMemoryStore.kept_of_run hrun, hget⟩
  constructor
  · intro hrecoverable
    by_contra hnot
    rcases held_or_retained effect hnot with hheld | hretained
    · exact not_recoverable_of_held h hget hheld hrecoverable
    · exact not_recoverable_of_retained hretained hstays hrecoverable
  · intro haccepted
    have hholds : Holds w.shared effect := by
      rw [Holds, hstays.effectId]
      exact hget
    rw [← hstays.effectId]
    exact recoverable_of_accepted hholds haccepted

/-- A worker claims an effect, records that it dispatches it, and dies. -/
def abandonedRun : List (Choice Procedure (Surroundings AnyAnswer)) :=
  submitSample 0 (sampleContract .idempotent 0) (committing (sampleTime 0)) ++
    claimSample 1 (sampleTime 1) (committing (sampleTime 1)) ++ [.stop 1]

/-- A target promises to remember keys for as long as a `timedelta` can say. -/
def retainedContract : EffectContract :=
  { sampleContract .idempotent 0 with
    keyRetention := some ⟨999999999 * 86400000000, by decide, by decide⟩ }

/-- A worker dispatches such an effect, and the response is lost. -/
def retainedRun : List (Choice Procedure (Surroundings AnyAnswer)) :=
  let input : Surroundings AnyAnswer :=
    ⟨sampleTime 0, [], .ok (), .error (.other [] []), .error (.other [] [])⟩
  submitSample 0 retainedContract input ++ claimSample 1 (sampleTime 0) input ++
    List.replicate 3 (.answer 1 input)

theorem accepted_recoverable_sample :
    Recoverable (sampleWorld
      (submitSample 0 (sampleContract .idempotent 0) (committing (sampleTime 0)))).shared
      (effectIdOf 1) ∧
    ¬Recoverable (sampleWorld retainedRun).shared (effectIdOf 1) := by
  constructor
  · exact (accepted_recoverable (sampleWorld_reachable _)
      (show _ = some (sampleEffect (sampleContract .idempotent 0) .prepared 0) from rfl)).mpr
        ⟨rfl, fun h => absurd h (by decide)⟩
  · refine (accepted_recoverable (sampleWorld_reachable _)
      (show _ = some (sampleEffect retainedContract .outcomeUnknown 3) from rfl)).not.mpr fun h => ?_
    exact h.2 rfl rfl _ rfl (by decide +kernel)

/-- Nothing brings back an effect whose worker has died. -/
theorem abandoned_forever : ∃ effect,
    (sampleWorld abandonedRun).shared.store.records.get? (effectIdOf 1) = some effect ∧
    effect.status = .dispatching ∧ ¬Recoverable (sampleWorld abandonedRun).shared (effectIdOf 1) := by
  obtain ⟨effect, hget, hstatus⟩ : ∃ effect,
      (sampleWorld abandonedRun).shared.store.records.get? (effectIdOf 1) = some effect ∧
        effect.status = .dispatching := ⟨_, rfl, rfl⟩
  refine ⟨effect, hget, hstatus, not_recoverable_of_held (sampleWorld_reachable _) hget ?_⟩
  rw [hstatus]
  rfl

end
end EffectBroker
