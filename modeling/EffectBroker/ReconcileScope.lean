import EffectBroker.BrokerRuns
import EffectBroker.EventStream

/-!
# What reconcile touches

Reconcile is for effects whose outcome is unknown.  It does not look at the status,
though, and leaves that to the transition graph, which lets an idempotent effect go into
`dispatching` from `prepared` and `retryable` too.
-/
namespace EffectBroker
open Python Concurrency

/-- No adapter call that takes time. -/
def Quiet (t : List (Exchange Response)) : Prop := ∀ x ∈ t, x.request.external = false

/-- A call made no adapter call that takes time, left the store alone, and raised. -/
structure Untouched {Target α : Type} (store : InMemoryStore) (t : List (Exchange Response))
    (s : Shared InMemoryStore Target) (result : Except Exc α) : Prop where
  quiet : Quiet t
  store : s.store = store
  raises : ∃ exc, result = .error exc

/-- A reconcile of the tenant at `clock` finds an idempotent effect that a worker should
dispatch, with its key still retained. -/
def Unguarded (broker : Broker) (tenantId : Str) (effect : EffectRecord) (clock : Datetime) : Prop :=
  broker.hasAdapterFor ∧ effect.tenantId = tenantId ∧ effect.contract.safety = .idempotent ∧
    effect.status.isClaimable ∧ ∃ retention horizon, effect.contract.keyRetention = some retention ∧
      effect.createdAt.add retention = some horizon ∧ clock ≤ horizon

section
variable {Target Decision : Type} {adapters : Adapters Target Decision}
  {I : Surroundings Decision → Prop} {t : List (Exchange Response)}
  {s : Shared InMemoryStore Target} {before : EffectRecord}

theorem InMemoryStore.transition_refused {store : InMemoryStore} {target : EffectStatus}
    (hget : store.records.get? before.effectId = some before)
    (hedge : isAllowed before.status target = false) (now : Datetime) (data : Items) :
    store.transition now before.effectId before.version target data =
      (.error (.invalidTransition before.status target), store) := by
  unfold InMemoryStore.transition
  rw [InMemoryStore.recordForUpdate_ok.mpr ⟨hget, rfl⟩]
  simp only [assertTransition, hedge]
  rfl

theorem Quiet.cons {x : Exchange Response} (h : Quiet t) (hx : x.request.external = false) :
    Quiet (x :: t) := by
  intro y hy
  rcases List.mem_cons.mp hy with rfl | hy
  · exact hx
  · exact h y hy

/-- A transition off the graph raises and changes nothing. -/
theorem always_refused {store : InMemoryStore} {target : EffectStatus} {data : Items}
    (hquiet : Quiet t) (hstore : s.store = store)
    (hget : store.records.get? before.effectId = some before)
    (hedge : isAllowed before.status target = false) :
    Always (memoryBroker adapters) alone I (transitionAndRecord before target data) t s
      (Untouched store) := by
  subst hstore
  refine always_bind.mpr (always_tryCatch.mpr (always_transition.mpr ?_))
  rintro _ input rfl -
  simp only [memoryStore, InMemoryStore.transition_refused hget hedge]
  exact ⟨hquiet.cons rfl, rfl, _, rfl⟩

theorem always_recordOutcome {outcome : Str}
    {Q : List (Exchange Response) → Shared InMemoryStore Target → Except Exc Unit → Prop}
    (hquiet : Quiet t) (hok : ∀ t' s', Quiet t' → s'.store = s.store → Q t' s' (.ok ())) :
    Always (memoryBroker adapters) alone I (recordOutcome outcome) t s Q := by
  refine always_record.mpr ?_
  rintro _ input rfl -
  exact hok _ _ (hquiet.cons rfl) rfl

theorem always_recordRetentionRemaining
    {Q : List (Exchange Response) → Shared InMemoryStore Target → Except Exc Unit → Prop}
    (hquiet : Quiet t) (hok : ∀ t' s', Quiet t' → s'.store = s.store → Q t' s' (.ok ()))
    (herror : ∀ retention, before.contract.keyRetention = some retention →
      before.createdAt.add retention = none → Q t s (.error .overflowError)) :
    Always (memoryBroker adapters) alone I (recordRetentionRemaining before) t s Q := by
  unfold recordRetentionRemaining
  split
  · refine always_record.mpr ?_
    rintro _ input rfl -
    exact hok _ _ (hquiet.cons rfl) rfl
  · rename_i retention hretention
    refine always_bind.mpr (always_addTime (fun horizon _ => ?_) (herror retention hretention))
    refine always_bind.mpr (always_clock.mpr ?_)
    rintro _ input rfl -
    refine always_record.mpr ?_
    rintro _ input rfl -
    exact hok _ _ ((hquiet.cons rfl).cons rfl) rfl

/-- The retention check reads the clock once. -/
theorem always_keyRetentionValid {P : Datetime → Prop} (hclock : ∀ input, I input → P input.now)
    {Q : List (Exchange Response) → Shared InMemoryStore Target → Except Exc Bool → Prop}
    (hquiet : Quiet t) (hnone : before.contract.keyRetention = none → Q t s (.ok false))
    (hok : ∀ t' retention horizon now, Quiet t' → before.contract.keyRetention = some retention →
      before.createdAt.add retention = some horizon → P now → Q t' s (.ok (decide (now ≤ horizon))))
    (herror : ∀ t' retention, Quiet t' → before.contract.keyRetention = some retention →
      before.createdAt.add retention = none → Q t' s (.error .overflowError)) :
    Always (memoryBroker adapters) alone I (keyRetentionValid before) t s Q := by
  unfold keyRetentionValid
  split
  · rename_i hretention
    exact hnone hretention
  · rename_i retention hretention
    refine always_bind.mpr (always_clock.mpr ?_)
    rintro _ input rfl hi
    refine always_bind.mpr (always_addTime (fun horizon hhorizon => ?_) (fun hnone => ?_))
    · exact hok _ retention horizon input.now (hquiet.cons rfl) hretention hhorizon (hclock input hi)
    · exact herror _ retention (hquiet.cons rfl) hretention hnone

theorem isAllowed_dispatching {status : EffectStatus} (h : status ≠ .outcomeUnknown)
    (hc : status.isClaimable = false) : isAllowed status .dispatching = false := by
  cases status <;> first | rfl | exact absurd rfl h | cases hc

theorem isAllowed_reconciling {status : EffectStatus} (h : status ≠ .outcomeUnknown) :
    isAllowed status .reconciling = false := by
  cases status <;> first | rfl | exact absurd rfl h

theorem isAllowed_manualReview {status : EffectStatus} (h : status ≠ .outcomeUnknown)
    (hr : status ≠ .reconciling) : isAllowed status .manualReview = false := by
  cases status <;> first | rfl | exact absurd rfl h | exact absurd rfl hr

/-- Apart from idempotent effects that a worker should dispatch, the transition graph
refuses every effect whose outcome is not unknown. -/
theorem always_reconcileOnce_refused {store : InMemoryStore} {clock : Datetime}
    (hquiet : Quiet t) (hstore : s.store = store)
    (hget : store.records.get? before.effectId = some before)
    (hs : before.status ≠ .outcomeUnknown)
    (hprobed : before.status = .reconciling →
      routeUnknown before.contract.safety = .reconciling)
    (hguarded : before.contract.safety = .idempotent → before.status.isClaimable →
      ∀ retention horizon, before.contract.keyRetention = some retention →
        before.createdAt.add retention = some horizon → horizon < clock) :
    Always (memoryBroker adapters) alone (fun input => clock ≤ input.now) (reconcileOnce before) t s
      (Untouched store) := by
  unfold reconcileOnce
  have review : before.contract.safety = .idempotent ∨ before.contract.safety = .unsafeClass →
      isAllowed before.status .manualReview = false := by
    intro hsafety
    refine isAllowed_manualReview hs fun hr => ?_
    have hroute := hprobed hr
    rcases hsafety with hsafety | hsafety <;> rw [hsafety] at hroute <;> cases hroute
  cases hsafety : before.contract.safety with
  | reconcilable | transactional =>
    exact always_bind.mpr ((always_refused hquiet hstore hget (isAllowed_reconciling hs)).mono
      fun t s result h => by
        obtain ⟨exc, rfl⟩ := h.raises
        exact ⟨h.quiet, h.store, exc, rfl⟩)
  | unsafeClass =>
    refine always_bind.mpr (always_recordOutcome hquiet fun t s' hquiet hs' => ?_)
    exact always_refused hquiet (hs'.trans hstore) hget (review (.inr hsafety))
  | idempotent =>
    refine always_bind.mpr (always_recordRetentionRemaining hquiet (fun t s' hquiet hs' => ?_)
      (fun _ _ _ => ⟨hquiet, hstore, _, rfl⟩))
    have expired : ∀ t, Quiet t → Always (memoryBroker adapters) alone
        (fun input => clock ≤ input.now) (do
          recordOutcome (str "retention_expired")
          transitionAndRecord before .manualReview
            [(text "reason", text "idempotency_key_retention_expired")]) t s' (Untouched store) :=
      fun t hquiet => always_bind.mpr (always_recordOutcome hquiet fun t s'' hquiet hs'' =>
        always_refused hquiet (hs''.trans (hs'.trans hstore)) hget (review (.inl hsafety)))
    refine always_bind.mpr (always_keyRetentionValid (P := fun now => clock ≤ now)
      (fun _ hi => hi) hquiet (fun _ => expired t hquiet)
      (fun t retention horizon now hquiet hretention hhorizon hnow => ?_)
      (fun t _ hquiet _ _ => ⟨hquiet, hs'.trans hstore, _, rfl⟩))
    by_cases hc : before.status.isClaimable
    · -- the key has expired
      have hlt := hguarded hsafety hc retention horizon hretention hhorizon
      have hexpired : ¬ now ≤ horizon := not_le_of_gt (lt_of_lt_of_le hlt hnow)
      simp only [hexpired, decide_false]
      exact expired t hquiet
    · by_cases hvalid : now ≤ horizon
      · simp only [hvalid, decide_true, if_true]
        refine always_bind.mpr ((always_refused hquiet (hs'.trans hstore) hget
          (isAllowed_dispatching hs (by simpa using hc))).mono fun t s result h => ?_)
        obtain ⟨exc, rfl⟩ := h.raises
        exact ⟨h.quiet, h.store, exc, rfl⟩
      · simp only [hvalid, decide_false]
        exact expired t hquiet

/-- The broker's `reconcile` of an effect, for its tenant or another. -/
theorem always_reconcile {broker : Broker} {tenantId e : Str} {effect : EffectRecord}
    {Q : List (Exchange Response) → Shared InMemoryStore Target → Except Exc EffectRecord → Prop}
    (hget : s.store.records.get? e = some effect)
    (hnone : broker.hasAdapterFor = false → Q t s
      (.error (.runtimeError (str "EffectBroker.reconcile requires adapter_for"))))
    (hother : effect.tenantId ≠ tenantId →
      Q (⟨.get tenantId e, .ok none⟩ :: t) s (.error (.unknownEffect e)))
    (hown : broker.hasAdapterFor → effect.tenantId = tenantId →
      Always (memoryBroker adapters) alone I (reconcileOnce effect)
        (⟨.get tenantId e, .ok (some effect)⟩ :: t) s Q) :
    Always (memoryBroker adapters) alone I (broker.reconcile tenantId e) t s Q := by
  unfold Broker.reconcile
  by_cases hb : broker.hasAdapterFor
  · simp only [hb, if_true]
    refine always_bind.mpr (always_bind.mpr (always_get.mpr ?_))
    rintro _ input rfl -
    simp only [memoryStore, InMemoryStore.get, hget]
    by_cases ht : effect.tenantId = tenantId
    · simp only [ht, if_true]
      exact hown hb ht
    · simp only [ht, if_false]
      exact hother ht
  · have hfalse : broker.hasAdapterFor = false := by simpa using hb
    simp only [hfalse]
    exact hnone hfalse

/-- A guarded reconcile of an effect whose outcome is not unknown touches nothing. -/
theorem always_reconcile_untouched {broker : Broker} {tenantId e : Str} {effect : EffectRecord}
    {clock : Datetime} (hget : s.store.records.get? e = some effect) (hid : effect.effectId = e)
    (hs : effect.status ≠ .outcomeUnknown)
    (hprobed : effect.status = .reconciling →
      routeUnknown effect.contract.safety = .reconciling)
    (hguarded : ¬ Unguarded broker tenantId effect clock) :
    Always (memoryBroker adapters) alone (fun input => clock ≤ input.now)
      (broker.reconcile tenantId e) [] s (Untouched s.store) := by
  subst hid
  have hnil : Quiet [] := fun _ hx => nomatch hx
  refine always_reconcile hget (fun _ => ⟨hnil, rfl, _, rfl⟩)
    (fun _ => ⟨hnil.cons rfl, rfl, _, rfl⟩) fun hb ht => ?_
  refine always_reconcileOnce_refused (hnil.cons rfl) rfl hget hs hprobed
    fun hsafety hc retention horizon hretention hhorizon => lt_of_not_ge fun hle => ?_
  exact hguarded ⟨hb, ht, hsafety, hc, retention, horizon, hretention, hhorizon, hle⟩

/-- The call has moved the effect. -/
def Moves (e : Str) (t : List (Exchange Response)) : Prop :=
  ∃ version target data, ∃ after : EffectRecord,
    ⟨.transition e version target data, (.ok after : Except Exc EffectRecord)⟩ ∈ t

/-- An unguarded reconcile moves the effect. -/
theorem always_reconcile_moves {broker : Broker} {tenantId e : Str} {effect : EffectRecord}
    {clock : Datetime} (hget : s.store.records.get? e = some effect) (hid : effect.effectId = e)
    (hunguarded : Unguarded broker tenantId effect clock) :
    Always (memoryBroker adapters) alone (fun input => input.now = clock)
      (broker.reconcile tenantId e) [] s (fun t _ _ => Moves e t) := by
  subst hid
  obtain ⟨hb, ht, hsafety, hc, retention, horizon, hretention, hhorizon, hle⟩ := hunguarded
  have hedge : isAllowed effect.status .dispatching = true := by
    rcases EffectStatus.isClaimable_iff.mp hc with hs | hs <;> rw [hs] <;> rfl
  refine always_reconcile hget (fun h => absurd hb (by rw [h]; exact fun h => nomatch h))
    (fun h => absurd ht h) fun _ _ => ?_
  unfold reconcileOnce
  rw [hsafety]
  refine always_bind.mpr (always_recordRetentionRemaining (fun x hx => ?_) (fun t s' hquiet hs' => ?_)
    (fun r hr hnone => ?_))
  · obtain rfl := List.mem_singleton.mp hx
    rfl
  · refine always_bind.mpr (always_keyRetentionValid (P := fun now => now = clock)
      (fun _ hi => hi) hquiet (fun hnone => ?_) (fun t r h now hquiet hr hh hnow => ?_)
      (fun t r hquiet hr hnone => ?_))
    · cases hretention.symm.trans hnone
    · cases hretention.symm.trans hr
      cases hhorizon.symm.trans hh
      simp only [hnow, hle, decide_true, if_true]
      refine always_bind.mpr (always_bind.mpr (always_tryCatch.mpr (always_transition.mpr ?_)))
      rintro _ input rfl -
      rw [← hs'] at hget
      simp only [memoryStore, InMemoryStore.transition_ok hget hedge]
      refine always_bind.mpr (always_record.mpr ?_)
      rintro _ input' rfl -
      refine always_pure.mpr ((always_history _).mono fun t' _ _ ht => ?_)
      exact ⟨_, _, _, _, ht _ (List.mem_cons_of_mem _ (List.mem_cons_self ..))⟩
    · cases hretention.symm.trans hr
      cases hhorizon.symm.trans hnone
  · cases hretention.symm.trans hr
    cases hhorizon.symm.trans hnone

end

/-! ## Reconcile in reachable ledgers -/

section
variable {Target Decision : Type} {adapters : Adapters Target Decision} {hashes : Hashes}
  {tenantKeyProvider : TenantKeyProvider} {target : Target}
  {w : World Response Exc Procedure Reply (Shared InMemoryStore Target)}

/-- The moves in a life. -/
def movesIn (moments : List Moment) : Nat :=
  moments.countP fun
    | .moved .. => true
    | _ => false

theorem length_transitionsIn (ms : List Moment) : (transitionsIn ms).length = movesIn ms := by
  induction ms with
  | nil => rfl
  | cons m ms ih =>
    cases m with
    | moved => rw [transitionsIn, List.length_cons, ih, movesIn, movesIn, List.countP_cons_of_pos rfl]
    | _ => exact ih

/-- A call by itself that moves an effect leaves another store. -/
theorem Moves.store_ne {I : Surroundings Decision → Prop} {procedure : Procedure} {e : Str}
    {t : List (Exchange Response)} {s' : Shared InMemoryStore Target} {result : Except Exc Reply}
    (h : (memoryBroker adapters).Reachable (.initial hashes tenantKeyProvider target) w)
    (hruns : Runs (memoryBroker adapters) alone I procedure.program [] w.shared t s' result)
    (hmoves : Moves e t) : s'.store ≠ w.shared.store := by
  intro heq
  obtain ⟨n, hn⟩ := h.exists_absent
  have habsent := hn n le_rfl
  have hconforms := (reachable_runs h).2 n
  rw [habsent] at hconforms
  obtain ⟨w', newer, hw', hshared, hlog, -, hanswered⟩ := hruns.called rfl habsent hconforms.2
  have h' := System.ReachableFrom.trans _ h hw'
  have hbefore := streamed_of_protocolRun (reachable_runs h).1 e
  have hafter := streamed_of_protocolRun (reachable_runs h').1 e
  rw [hshared, heq, hbefore, hlog, momentsOf_append] at hafter
  have hlength := congrArg List.length hafter
  rw [length_transitionsIn, length_transitionsIn, movesIn, movesIn, List.countP_append] at hlength
  -- the newer part has a move
  obtain ⟨version, status, data, after, hm⟩ := hmoves
  obtain ⟨ms, ms', hms⟩ := List.append_of_mem (hanswered _ hm)
  have hmoved : ∃ mover, .moved mover after data ∈ momentsSince e w.log newer := by
    rw [hms, momentsSince_append]
    exact ⟨_, List.mem_append_right _ (List.mem_append_left _
      (Option.mem_toList.mpr Means.moved.momentOf_eq))⟩
  obtain ⟨mover, hmoved⟩ := hmoved
  have := List.countP_pos_iff (p := fun | Moment.moved .. => true | _ => false).mpr ⟨_, hmoved, rfl⟩
  omega

/-- An unguarded reconcile touches the ledger. -/
theorem Unguarded.touches [Nonempty Decision] {broker : Broker} {tenantId e : Str}
    {effect : EffectRecord} {clock : Datetime} (hunguarded : Unguarded broker tenantId effect clock)
    (h : (memoryBroker adapters).Reachable (.initial hashes tenantKeyProvider target) w)
    (hget : w.shared.store.records.get? e = some effect) :
    ∃ t s' result, Runs (memoryBroker adapters) alone (fun input => clock ≤ input.now)
      (Procedure.reconcile broker tenantId e).program [] w.shared t s' result ∧
      ¬ Untouched w.shared.store t s' result := by
  obtain ⟨decision⟩ := ‹Nonempty Decision›
  obtain ⟨phase, hlife, hrec, -⟩ := (reachable_coherent h).tracked e
  have hid := hlife.fits.effectId effect (hrec.symm.trans hget)
  obtain ⟨t, s', result, hruns⟩ := exists_runs (S := memoryBroker adapters) (R := alone)
    (I := fun input => input.now = clock) (fun _ _ => rfl)
    (show (⟨clock, [], decision⟩ : Surroundings Decision).now = clock from rfl)
    (Procedure.reconcile broker tenantId e).program [] w.shared
  have hmoves : Moves e t := by
    refine hruns.satisfies (Q := fun t _ _ => Moves e t) (always_bind.mpr
      ((always_reconcile_moves hget hid hunguarded).mono fun t s result hm => ?_))
    cases result <;> exact hm
  exact ⟨t, s', result, hruns.weaken fun _ hi => le_of_eq hi.symm,
    fun hu => hmoves.store_ne h hruns hu.store⟩

/-- **Reconcile touches only unknown outcomes**, unless it finds an idempotent effect that
a worker should dispatch and whose key is still retained. -/
theorem reconcile_untouched_iff [Nonempty Decision] {e : Str} {effect : EffectRecord}
    (h : (memoryBroker adapters).Reachable (.initial hashes tenantKeyProvider target) w)
    (hget : w.shared.store.records.get? e = some effect) (hs : effect.status ≠ .outcomeUnknown)
    (broker : Broker) (tenantId : Str) (clock : Datetime) :
    (∀ t s' result, Runs (memoryBroker adapters) alone (fun input => clock ≤ input.now)
      (Procedure.reconcile broker tenantId e).program [] w.shared t s' result →
      Untouched w.shared.store t s' result) ↔ ¬ Unguarded broker tenantId effect clock := by
  constructor
  · intro hall hunguarded
    obtain ⟨t, s', result, hruns, hnot⟩ := hunguarded.touches h hget
    exact hnot (hall t s' result hruns)
  · intro hguarded t s' result hruns
    obtain ⟨phase, hlife, hrec, -⟩ := (reachable_coherent h).tracked e
    refine hruns.satisfies (always_bind.mpr ((always_reconcile_untouched hget
      (hlife.fits.effectId effect (hrec.symm.trans hget)) hs
      (hlife.fits.probed effect (hrec.symm.trans hget)) hguarded).mono fun t s result hu => ?_))
    obtain ⟨exc, rfl⟩ := hu.raises
    exact ⟨hu.quiet, hu.store, exc, rfl⟩

/-- A caller submits the sample operation, and nobody else acts. -/
def submittedRun (contract : EffectContract) : List (Choice Procedure (Surroundings AnyAnswer)) :=
  submitSample 0 contract ⟨sampleTime 0, [], .ok (), .error .overflowError, .error .overflowError⟩

instance : Nonempty AnyAnswer := ⟨.ok (), .error .overflowError, .error .overflowError⟩

theorem reconcile_untouched_iff_sample :
    let contract := sampleContract .reconcilable 0
    (∀ t s' result, Runs (memoryBroker anyAdapters) alone (fun input => sampleTime 0 ≤ input.now)
      (Procedure.reconcile (sampleBroker contract) sampleTenant (effectIdOf 1)).program []
      (sampleWorld (submittedRun contract)).shared t s' result →
      Untouched (sampleWorld (submittedRun contract)).shared.store t s' result) ↔
    ¬ Unguarded (sampleBroker contract) sampleTenant (sampleEffect contract .prepared 0)
      (sampleTime 0) :=
  reconcile_untouched_iff (sampleWorld_reachable _)
    (show _ = some (sampleEffect (sampleContract .reconcilable 0) .prepared 0) from rfl)
    (fun h => nomatch h) _ _ _

/-- Reconcile dispatches an idempotent effect that nobody has dispatched before. -/
theorem reconcile_touches_prepared : ∃ (w : World Response Exc Procedure Reply
      (Shared InMemoryStore Unit)) (e : Str) (effect : EffectRecord) (broker : Broker)
      (tenantId : Str) (clock : Datetime) (t : List (Exchange Response))
      (s' : Shared InMemoryStore Unit) (result : Except Exc Reply),
    (memoryBroker anyAdapters).Reachable (.initial sampleHashes sampleKeys ()) w ∧
    w.shared.store.records.get? e = some effect ∧ effect.contract.Valid ∧
    effect.status = .prepared ∧
    Runs (memoryBroker anyAdapters) alone (fun input => clock ≤ input.now)
      (Procedure.reconcile broker tenantId e).program [] w.shared t s' result ∧
    ¬ Untouched w.shared.store t s' result := by
  have hreachable := sampleWorld_reachable (submittedRun (sampleContract .idempotent 0))
  have hget : (sampleWorld (submittedRun (sampleContract .idempotent 0))).shared.store.records.get?
      (effectIdOf 1) = some (sampleEffect (sampleContract .idempotent 0) .prepared 0) := rfl
  have hunguarded : Unguarded (sampleBroker (sampleContract .idempotent 0)) sampleTenant
      (sampleEffect (sampleContract .idempotent 0) .prepared 0) (sampleTime 0) :=
    ⟨rfl, rfl, rfl, rfl, oneDay, sampleTime 1, rfl,
      by decide +kernel, by decide +kernel⟩
  obtain ⟨t, s', result, hruns, hnot⟩ := hunguarded.touches hreachable hget
  exact ⟨_, _, _, _, _, _, t, s', result, hreachable, hget, by decide, rfl, hruns, hnot⟩

end
end EffectBroker
