import EffectBroker.ProbedEffects

/-!
# What a definite non-success says

Under truthful adapters, an effect that is `retryable`, `cancelled`, or final by the
word of a worker should have committed nothing.  Proof of non-commit is about one
attempt, though: a redispatch that raises `AdapterError` is taken for the whole effect,
even if an earlier attempt has committed.
-/
namespace EffectBroker
open Python Concurrency

/-! ## Truthful adapters -/

/-- The dispatch call of the effect `e` that commits at the target: caller and attempt. -/
def landing (e : Str) : BrokerEvent → Option (Nat × Str)
  | .landed c (.dispatch effect attemptId) =>
    if effect.effectId = e then some (c, attemptId) else none
  | _ => none

/-- The dispatch calls of the effect `e` that have committed at the target. -/
def landedCalls (e : Str) (log : List BrokerEvent) : List (Nat × Str) := log.filterMap (landing e)

/-- An adapter tells the truth in this event: it raises `AdapterError` only if that very
call has committed nothing, and answers `NOT_COMMITTED` only if no dispatch of the effect
has committed. -/
def TruthfulEvent (log : List BrokerEvent) : BrokerEvent → Prop
  | .answered c (.dispatch effect attemptId) (.error exc : Except Exc DispatchReturn) =>
    exc.isAdapterError → (c, attemptId) ∉ landedCalls effect.effectId log
  | .answered _ (.probe effect) (.ok result : Except Exc ProbeReturn) =>
    result.status = .ok (.known .notCommitted) → landedCalls effect.effectId log = []
  | _ => True

instance (log : List BrokerEvent) (event : BrokerEvent) : Decidable (TruthfulEvent log event) := by
  unfold TruthfulEvent
  split <;> infer_instance

/-- An `AdapterError` is about the whole effect in this event: no other call of the effect
has committed when a dispatch raises it, and not the call itself when a worker meets it
where the result is read. -/
def WholeProof (e : Str) (log : List BrokerEvent) : BrokerEvent → Prop
  | .answered c (.dispatch effect attemptId) (.error exc : Except Exc DispatchReturn) =>
    effect.effectId = e → exc.isAdapterError →
      ∀ call ∈ landedCalls e log, call = (c, attemptId)
  | .answered c (.dispatch effect attemptId) (.ok result : Except Exc DispatchReturn) =>
    effect.effectId = e → ProvesNonCommit (.ok result) → IsWorker log c →
      (c, attemptId) ∉ landedCalls e log
  | _ => True

/-- The effect is recorded as a definite non-success, not by an operator. -/
def DefiniteNonSuccess (log : List BrokerEvent) (e : Str) (effect : EffectRecord) : Prop :=
  effect.status = .retryable ∨ effect.status = .cancelled ∨ effect.status = .failedFinal ∧
    ∃ c version target data, IsWorker log c ∧
      .answered c (.transition e version target data) (.ok effect : Except Exc EffectRecord) ∈ log

/-! ## Commits in a life -/

/-- The call that commits in a moment. -/
def Moment.landing : Moment → Option (Nat × Str)
  | .landed c attemptId => some (c, attemptId)
  | _ => none

/-- The calls of a life that have committed. -/
def landedIn (moments : List Moment) : List (Nat × Str) := moments.filterMap Moment.landing

theorem landing_eq (e : Str) (log : List BrokerEvent) (event : BrokerEvent) :
    landing e event = (momentOf e log event).bind Moment.landing := by
  cases hm : momentOf e log event with
  | none =>
    unfold landing
    split
    · rename_i c effect attemptId
      refine if_neg fun he => ?_
      exact nomatch hm.symm.trans (Means.landed he).momentOf_eq
    · rfl
  | some m =>
    cases means_iff.mp hm with
    | landed he => exact if_pos he
    | _ => rfl

theorem landedCalls_eq (e : Str) (log : List BrokerEvent) :
    landedCalls e log = landedIn (momentsOf e log) := by
  induction log with
  | nil => rfl
  | cons event log ih =>
    rw [landedCalls, List.filterMap_cons, landing_eq e log, ← landedCalls, ih]
    cases hm : momentOf e log event with
    | none => rw [momentsOf_cons_none hm, Option.bind_none]
    | some m => rw [momentsOf_cons_some hm, landedIn, landedIn, List.filterMap_cons, Option.bind_some]

/-- What a moment has to prove. -/
def Proved (older : List Moment) : Moment → Prop
  | .dispatched _ _ (.error exc) => exc.isAdapterError → landedIn older = []
  | .dispatched c attemptId (.ok result) => ProvesNonCommit (.ok result) →
    (∃ procedure clock after data, .moved ⟨c, some procedure, clock⟩ after data ∈ older ∧
      procedure.route = .worker) → (c, attemptId) ∉ landedIn older
  | .probed _ (.ok result) =>
    result.status = .ok (.known .notCommitted) → landedIn older = []
  | _ => True

/-- Where an effect may be after what has committed. -/
def Clean (ms : List Moment) : Phase → Prop
  | .unborn => landedIn ms = []
  | .resting effect => effect.status.isClaimable ∨ effect.status = .cancelled → landedIn ms = []
  | .held _ (.entered .worker _) _ | .held _ (.attempted .worker _ _) _ => landedIn ms = []
  | .held c (.built .worker _ attemptId _) calling =>
    ∀ call ∈ landedIn ms, calling ∧ call = (c, attemptId)
  | .held _ (.dispatched _ _ _ (.error exc)) _ => exc.isAdapterError → landedIn ms = []
  | .held _ (.dispatched .worker _ _ answer) _ => ProvesNonCommit answer → landedIn ms = []
  | .held _ (.probed _ (.ok result)) _ =>
    result.status = .ok (.known .notCommitted) → landedIn ms = []
  | .held .. => True

theorem Life.clean {e : Str} {ms : List Moment} {phase : Phase} (h : Life e ms phase)
    (hproved : Throughout Proved ms) : Clean ms phase := by
  induction h with
  | unborn => rfl
  | reserved => exact fun _ => rfl
  | claimed _ _ hc ih => exact fun _ => ih hproved (.inl hc)
  | @started ms effect procedure clock target data caller now _ hstarts _ ih =>
    have hclean := ih hproved.2
    have rest : target.isHeld = false → (target.isClaimable ∨ target = .cancelled → landedIn ms = []) →
        Clean (.moved ⟨caller, some procedure, clock⟩ (movedRecord effect target now) data :: ms)
          (.entering caller procedure.route (movedRecord effect target now)) := by
      intro hheld hms
      rw [Phase.entering_of_not_held hheld]
      exact hms
    cases hstarts with
    | claimed hroute hc =>
      rw [Phase.entering_dispatching rfl, hroute]
      exact hclean (.inl hc)
    | redispatch hroute =>
      rw [Phase.entering_dispatching rfl, hroute]
      trivial
    | reconcile =>
      rw [Phase.entering_reconciling rfl]
      trivial
    | review => exact rest rfl fun h => by rcases h with h | h <;> cases h
    | cancel _ hc => exact rest rfl fun _ => hclean (.inl hc)
    | resolve _ _ hr =>
      refine rest (Broker.isResolution_rests hr).1 fun h => ?_
      rcases h with h | rfl
      · exact nomatch h.symm.trans (Broker.isResolution_rests hr).2
      · cases hr
  | @attempted _ _ route _ _ ih =>
    cases route with
    | worker => exact ih hproved.2
    | redispatch => trivial
  | @built ms _ route _ _ _ _ ih =>
    cases route with
    | worker =>
      have hms : landedIn ms = [] := ih hproved.2
      intro call (hm : call ∈ landedIn ms)
      rw [hms] at hm
      cases hm
    | redispatch => trivial
  | @began _ _ route _ _ _ ih =>
    cases route with
    | worker => exact fun call hm => ⟨rfl, (ih hproved.2 call hm).2⟩
    | redispatch => trivial
  | @landed _ _ route _ _ _ ih =>
    cases route with
    | worker =>
      intro call hm
      rcases List.mem_cons.mp hm with rfl | hm
      · exact ⟨rfl, rfl⟩
      · exact ih hproved.2 call hm
    | redispatch => trivial
  | @dispatched ms c route effect attemptId answer hlife ih =>
    cases answer with
    | error exc => exact hproved.1
    | ok result =>
      cases route with
      | redispatch => trivial
      | worker =>
        intro hp
        have hnot := hproved.1 hp (hlife.hold_mover _ _ _ _ rfl rfl)
        refine List.eq_nil_iff_forall_not_mem.mpr fun call hm => ?_
        obtain ⟨-, rfl⟩ := ih hproved.2 call hm
        exact hnot hm
  | probeBuilt | probeBegan => trivial
  | probed answer =>
    cases answer with
    | error => trivial
    | ok => exact hproved.1
  | @settled ms caller hold effect procedure clock target data now _ hr hs _ ih =>
    have hclean := ih hproved.2
    intro htarget
    cases hs with
    | committed | unbuilt | unknown | probeCommitted | probeUnknown =>
      rcases htarget with h | h <;> cases h
    | refused =>
      refine List.eq_nil_iff_forall_not_mem.mpr fun call hm => ?_
      exact nomatch (hclean call hm).1
    | @nonCommit _ _ answer _ hp =>
      cases answer with
      | error exc =>
        cases hp with
        | raised ha => exact hclean ha
      | ok result => exact hclean hp
    | redispatchNonCommit ha => exact hclean ha
    | probeNotCommitted hstatus => exact hclean hstatus

/-- Only a worker's failure and an operator make an effect final. -/
theorem Life.final_by_worker {e : Str} {mover : Mover} {effect : EffectRecord} {data : Items}
    {ms : List Moment} {phase : Phase} (h : Life e (.moved mover effect data :: ms) phase)
    (hproved : Throughout Proved ms) (hs : effect.status = .failedFinal)
    (hmover : ∀ tenantId effectId target evidence,
      mover.procedure ≠ some (.resolve tenantId effectId target evidence)) : landedIn ms = [] := by
  obtain ⟨before, earlier, hlife, -, hmoved, -⟩ := h.of_moved rfl
  have hclean := hlife.clean hproved
  rw [hs] at hmoved
  cases hmoved with
  | started hp hstarts =>
    cases hstarts with
    | resolve hproc => exact absurd (hp.trans (congrArg some hproc)) (hmover _ _ _ _)
  | settled hr hsettles =>
    generalize htarget : EffectStatus.failedFinal = target at hsettles
    cases hsettles with
    | refused =>
      refine List.eq_nil_iff_forall_not_mem.mpr fun call hm => ?_
      exact nomatch (hclean call hm).1
    | @nonCommit _ _ answer _ hp =>
      cases answer with
      | error exc =>
        cases hp with
        | raised ha => exact hclean ha
      | ok result => exact hclean hp
    | _ => cases htarget

section
variable {Target Decision : Type} {adapters : Adapters Target Decision} {hashes : Hashes}
  {tenantKeyProvider : TenantKeyProvider} {target : Target}
  {w : World Response Exc Procedure Reply (Shared InMemoryStore Target)}

/-- Truthful adapters, and proofs that are about whole effects, prove what moments have to. -/
theorem throughout_proved {e : Str} {log : List BrokerEvent}
    (htruth : Throughout TruthfulEvent log) (hwhole : Throughout (WholeProof e) log) :
    Throughout Proved (momentsOf e log) := by
  refine throughout_momentsOf (htruth.and hwhole) fun older event m hmeans ⟨ht, hw⟩ => ?_
  cases hmeans with
  | @dispatched c effect attemptId answer he =>
    subst he
    cases answer with
    | error exc =>
      intro ha
      rw [← landedCalls_eq]
      refine List.eq_nil_iff_forall_not_mem.mpr fun call hm => ?_
      obtain rfl := hw rfl ha call hm
      exact ht ha hm
    | ok result =>
      rintro hp ⟨procedure, clock, after, data, hm, hroute⟩
      rw [← landedCalls_eq]
      exact hw rfl hp (.of_route (called_of_moved hm rfl) hroute)
  | @probed c effect answer he =>
    subst he
    cases answer with
    | error _ => trivial
    | ok result =>
      intro hs
      rw [← landedCalls_eq]
      exact ht hs
  | _ => trivial

/-- **A definite non-success is over an effect that has committed nothing**, as long as
no `AdapterError` is met after another commit of its effect. -/
theorem definite_over_uncommitted {e : Str} {effect : EffectRecord}
    (h : (memoryBroker adapters).Reachable (.initial hashes tenantKeyProvider target) w)
    (htruth : Throughout TruthfulEvent w.log) (hwhole : Throughout (WholeProof e) w.log)
    (hget : w.shared.store.records.get? e = some effect)
    (hdefinite : DefiniteNonSuccess w.log e effect) : landedCalls e w.log = [] := by
  obtain ⟨phase, hlife, hrec, -⟩ := (reachable_coherent h).tracked e
  have hproved := throughout_proved htruth hwhole
  rw [landedCalls_eq]
  have rest : ∀ status, effect.status = status → status.isHeld = false →
      (status.isClaimable ∨ status = .cancelled) → landedIn (momentsOf e w.log) = [] := by
    rintro _ rfl hheld hs
    obtain rfl := hlife.fits.of_not_held (hrec.symm.trans hget) hheld
    exact hlife.clean hproved hs
  rcases hdefinite with hs | hs | ⟨hs, c, version, status, data, ⟨workerId, now, leaseFor, limit, hc⟩, hm⟩
  · exact rest _ hs rfl (.inl rfl)
  · exact rest _ hs rfl (.inr rfl)
  · obtain ⟨mover, data', ms, hms⟩ := hlife.last_move effect (hrec.symm.trans hget)
      (by rw [hs]; rfl) (by rw [hs]; rfl)
    -- the worker's transition is the last move
    obtain ⟨newer, older, hlog⟩ := List.append_of_mem hm
    have hmoved : .moved (moverOf older c) effect data ∈ momentsOf e w.log := by
      rw [hlog, momentsOf_append, momentsOf_cons_some Means.moved.momentOf_eq]
      exact List.mem_append_right _ (List.mem_cons_self ..)
    rw [hms] at hlife hmoved hproved ⊢
    obtain rfl := hlife.moved_once hmoved
    refine hlife.final_by_worker hproved.2 hs fun tenantId effectId target' evidence hp => ?_
    have hrun := (reachable_runs h).1
    have htask := taskOf_of_called hrun hc
    rw [taskOf_of_called hrun (hlog ▸ List.mem_append_right _ (List.mem_cons_of_mem _
      (mem_of_taskOf hp)))] at htask
    cases htask

/-- Where nothing has committed, every proof is about the whole effect. -/
theorem throughout_wholeProof {e : Str} {log : List BrokerEvent} (h : landedCalls e log = []) :
    Throughout (WholeProof e) log := by
  induction log with
  | nil => trivial
  | cons event log ih =>
    have hlog : landedCalls e log = [] := by
      rw [landedCalls, List.filterMap_eq_nil_iff] at h ⊢
      exact fun event' hm => h event' (List.mem_cons_of_mem _ hm)
    refine ⟨?_, ih hlog⟩
    unfold WholeProof
    split
    · intro _ _ call hm
      rw [hlog] at hm
      cases hm
    · intro _ _ _ hm
      rw [hlog] at hm
      cases hm
    · trivial

/-- A worker's dispatch meets a proven non-commit. -/
def refusedRun : List (Choice Procedure (Surroundings AnyAnswer)) :=
  let refusal : Surroundings AnyAnswer := ⟨sampleTime 0, [], .ok (),
    .error (.adapterError (str "AdapterError") []), .error .overflowError⟩
  submitSample 0 (sampleContract .idempotent 0) refusal ++ claimSample 1 (sampleTime 0) refusal ++
    List.replicate 3 (.answer 1 refusal)

theorem definite_over_uncommitted_sample :
    landedCalls (effectIdOf 1) (sampleWorld refusedRun).log = [] :=
  definite_over_uncommitted (sampleWorld_reachable refusedRun) (by decide +kernel)
    (throughout_wholeProof (by decide +kernel))
    (show _ = some (sampleEffect (sampleContract .idempotent 0) .failedFinal 3) from rfl)
    (.inr (.inr ⟨rfl, 1, _, _, _,
      ⟨_, _, _, _, List.mem_of_getElem? (show _[10]? = _ from rfl)⟩,
      List.mem_of_getElem? (show _[1]? = _ from rfl)⟩))

/-- A dispatch commits and times out, and the redispatch meets a proven non-commit. -/
def refusedRedispatchRun : List (Choice Procedure (Surroundings AnyAnswer)) :=
  let timeout : Surroundings AnyAnswer := ⟨sampleTime 0, [], .ok (),
    .error (.other (str "TimeoutError") []), .error .overflowError⟩
  let refusal : Surroundings AnyAnswer := ⟨sampleTime 0, [], .ok (),
    .error (.adapterError (str "AdapterError") []), .error .overflowError⟩
  let contract := sampleContract .idempotent 0
  submitSample 0 contract timeout ++ claimSample 1 (sampleTime 0) timeout ++
    .land 1 :: List.replicate 3 (.answer 1 timeout) ++
    .call 2 (.reconcile (sampleBroker contract) sampleTenant (effectIdOf 1)) ::
    List.replicate 9 (.answer 2 refusal) ++ .begin 2 :: List.replicate 4 (.answer 2 refusal)

/-- A redispatch that raises `AdapterError` records a committed effect as `retryable`. -/
theorem committed_yet_retryable : ∃ (w : World Response Exc Procedure Reply
      (Shared InMemoryStore Unit)) (e : Str) (effect : EffectRecord),
    (memoryBroker anyAdapters).Reachable (.initial sampleHashes sampleKeys ()) w ∧
    Throughout TruthfulEvent w.log ∧ effect.contract.Valid ∧
    w.shared.store.records.get? e = some effect ∧ DefiniteNonSuccess w.log e effect ∧
    landedCalls e w.log ≠ [] :=
  ⟨sampleWorld refusedRedispatchRun, effectIdOf 1,
    sampleEffect (sampleContract .idempotent 0) .retryable 5, sampleWorld_reachable _,
    by decide +kernel, by decide, rfl, .inl rfl, by decide +kernel⟩

end
end EffectBroker
