import EffectBroker.Cancellation
import EffectBroker.MeterProtocol
import EffectBroker.StoreTallies

/-!
# Runs with what is due

In a run of the broker over an in-memory store, `MeterStep` says what one answered request
does to the ledger, to the metrics, and to what its caller has to record.
-/
namespace EffectBroker
open Python Concurrency

/-- What a caller has to record; who has called nothing has done nothing. -/
def dueIn : Option MeterState → Due
  | some l => l.due
  | none => .nothing

/-- What a caller has to record. -/
def dueOf (log : List BrokerEvent) (c : Nat) : Due := dueIn (localOf meterProtocol log c)

/-- Callers that keep to the rules of effects, and to those of metrics. -/
abbrev meteredProtocol := callerProtocol.both meterProtocol

/-- The counter of a result. -/
def Metrics.count (m : Metrics) (label : Str) : Nat := (m.effectsTotal.get? label).getD 0

theorem count_inc {m : Metrics} {label label' : Str} :
    ((inc m.effectsTotal label').get? label).getD 0 =
      m.count label + if label = label' then 1 else 0 := by
  unfold inc Metrics.count
  rw [Dict.get?_set]
  by_cases h : label = label'
  · rw [if_pos h, if_pos h, h]
    rfl
  · rw [if_neg h, if_neg h]
    rfl

/-- The samples that tell of effects are the same. -/
structure SameSamples (m m' : Metrics) : Prop where
  counts : ∀ label ≠ str "conflicted", m'.count label = m.count label
  unknown : m'.unknownByEffectId = m.unknownByEffectId
  gauge : m'.outcomeUnknownEffects = m.outcomeUnknownEffects

theorem SameSamples.refl (m : Metrics) : SameSamples m m := ⟨fun _ _ => rfl, rfl, rfl⟩

theorem sameSamples_record {metric : Metric} (h : (Request.record metric).isPlain = true)
    (m : Metrics) : SameSamples m (m.record metric) := by
  cases metric with
  | submit | transition => cases h
  | conflict =>
    refine ⟨fun label hlabel => ?_, rfl, rfl⟩
    refine count_inc.trans ?_
    rw [if_neg hlabel, Nat.add_zero]
  | dispatchAttempt | reconciliationOutcome | fencedStaleWrite | retentionRemaining =>
    exact ⟨fun _ _ => rfl, rfl, rfl⟩

/-- What one answered request does to the ledger and the metrics. -/
inductive MeterStep (s s' : InMemoryStore) (m m' : Metrics) (l : MeterState) :
    (r : Request) → Response r → Prop
  | plain {r response} : l.due = .nothing → (l.after r response).due = .nothing → s.SameFaces s' →
      SameSamples m m' → MeterStep s s' m m' l r response
  | replayed {tenantId request contract} {reservation : Reservation} : l.due = .nothing →
      reservation.created = false → s' = s → m' = m →
      MeterStep s s' m m' l (.reserve tenantId request contract) (.ok reservation)
  | created {tenantId request contract record next} : l.due = .nothing →
      s.records.get? record.effectId = none → record.status = .prepared →
      s' = { s with nextEffectId := next }.insertEffect record → m' = m →
      MeterStep s s' m m' l (.reserve tenantId request contract) (.ok ⟨record, true, false⟩)
  | moved {e before target now data} : l.due = .nothing → s.records.get? e = some before →
      before.effectId = e → isAllowed before.status target = true →
      (∀ known ∈ l.known, known.effectId = e → known.version = before.version → known = before) →
      (l.procedure.recordsMoves = false →
        before.status = .manualReview ∧ Broker.isResolution target = true) →
      s' = s.moveRecord before now e target data → m' = m →
      MeterStep s s' m m' l (.transition e before.version target data)
        (.ok (movedRecord before target now))
  | submitRecorded {reservation} : l.due = .submitted reservation → s' = s →
      m' = m.recordSubmit reservation → MeterStep s s' m m' l (.record (.submit reservation)) ()
  | moveRecorded {before after} : l.due = .moved before.effectId before.version after →
      before ∈ l.known → s' = s → m' = m.recordTransition before after →
      MeterStep s s' m m' l (.record (.transition before after)) ()

section
variable {Target Decision : Type} {adapters : Adapters Target Decision} {hashes : Hashes}
  {tenantKeyProvider : TenantKeyProvider} {target : Target} {log : List BrokerEvent} {c : Nat}
  {shared : Shared InMemoryStore Target}

/-- Both protocols know the same of a caller. -/
theorem localOf_known {l : CallerState × MeterState}
    (h : localOf meteredProtocol log c = some l) :
    l.2.known = l.1.known ∧ l.2.procedure = l.1.procedure := by
  induction log generalizing l with
  | nil => cases h
  | cons event log ih =>
    cases event with
    | called d task =>
      simp only [localOf] at h
      split at h
      · cases h
        exact ⟨rfl, rfl⟩
      · exact ih h
    | answered d r response =>
      simp only [localOf] at h
      split at h
      · obtain ⟨before, hbefore, rfl⟩ := Option.map_eq_some_iff.mp h
        obtain ⟨hknown, hprocedure⟩ := ih hbefore
        exact ⟨congrArg (returned r response ++ ·) hknown, hprocedure⟩
      · exact ih h
    | began d r => exact ih h
    | landed d r => exact ih h
    | stopped d => exact ih h

theorem Coherent.effectId_eq {s : InMemoryStore} (h : Coherent s log) {e : Str}
    {record : EffectRecord} (hget : s.records.get? e = some record) : record.effectId = e := by
  obtain ⟨phase, hlife, hrecord, -⟩ := h.tracked e
  exact hlife.fits.effectId record (hrecord.symm.trans hget)

/-- A transition of a caller that has nothing to record. -/
theorem meterStep_transition (h : Coherent shared.store log) {l : MeterState}
    (hknown : ∀ known ∈ l.known, Current shared.store known) (hdue : l.due = .nothing) {e : Str}
    {version : Int} {status : EffectStatus} {data : Items} (surroundings : Surroundings Decision)
    (hsilent : l.procedure.recordsMoves = false →
      ∃ effect ∈ l.known, effect.effectId = e ∧ (effect.version : Int) = version ∧
        effect.status = .manualReview ∧ Broker.isResolution status = true) :
    MeterStep shared.store
      (serve memoryStore adapters (.transition e version status data) surroundings shared).2.store
      shared.metrics
      (serve memoryStore adapters (.transition e version status data) surroundings shared).2.metrics l
      (.transition e version status data)
      (serve memoryStore adapters (.transition e version status data) surroundings shared).1 := by
  show MeterStep shared.store (shared.store.transition surroundings.now e version status data).2
    shared.metrics shared.metrics l (.transition e version status data)
      (shared.store.transition surroundings.now e version status data).1
  rcases shared.store.transition_cases surroundings.now e version status data with
    ⟨exc, heq, -⟩ | ⟨before, hget, hversion, hallowed, heq⟩ <;> rw [heq]
  · exact .plain hdue hdue (.refl _) (.refl _)
  · -- what the caller knows of this version is the record of the store
    have hsame : ∀ known ∈ l.known, known.effectId = e → known.version = before.version →
        known = before := by
      intro known hm he hv
      obtain ⟨current, hfound, -, hequal⟩ := hknown known hm
      rw [he, hget] at hfound
      cases hfound
      exact hequal hv
    subst hversion
    refine .moved hdue hget (h.effectId_eq hget) hallowed hsame ?_ rfl rfl
    intro hrecords
    obtain ⟨effect, hm, he, hv, hreview, hresolution⟩ := hsilent hrecords
    have hversions : effect.version = before.version := by omega
    rw [← hsame effect hm he hversions]
    exact ⟨hreview, hresolution⟩

theorem meterStep_reserve (h : Coherent shared.store log) {l : MeterState} (hdue : l.due = .nothing)
    {tenantId : Str} {request : EffectRequest} {contract : EffectContract}
    (surroundings : Surroundings Decision) :
    MeterStep shared.store
      (serve memoryStore adapters (.reserve tenantId request contract) surroundings shared).2.store
      shared.metrics
      (serve memoryStore adapters (.reserve tenantId request contract) surroundings shared).2.metrics
      l (.reserve tenantId request contract)
      (serve memoryStore adapters (.reserve tenantId request contract) surroundings shared).1 := by
  show MeterStep shared.store (shared.store.reserve surroundings.now tenantId request contract).2
    shared.metrics shared.metrics l (.reserve tenantId request contract)
      (shared.store.reserve surroundings.now tenantId request contract).1
  rcases shared.store.reserve_cases surroundings.now tenantId request contract with
    ⟨exc, next, heq, -⟩ | ⟨existing, heq, -⟩ |
    ⟨record, heq, hid, -, -, -, hprepared, -, -, -⟩ <;> rw [heq]
  · exact .plain hdue hdue ⟨fun _ => rfl, fun _ _ => rfl⟩ (.refl _)
  · exact .replayed hdue rfl rfl rfl
  · exact .created hdue (hid ▸ h.next_unused) hprepared rfl rfl

theorem meterStep_plain {l : MeterState} (hdue : l.due = .nothing) {r : Request}
    (hplain : r.isPlain = true) (surroundings : Surroundings Decision) :
    MeterStep shared.store (serve memoryStore adapters r surroundings shared).2.store
      shared.metrics (serve memoryStore adapters r surroundings shared).2.metrics l r
      (serve memoryStore adapters r surroundings shared).1 := by
  have hafter : ∀ response, l.due.after l.procedure.recordsMoves r response = .nothing := by
    intro response
    rw [hdue]
    cases r with
    | reserve | transition => cases hplain
    | record | claimDue | startAttempt | get | clock | adapterFor | dispatch | probe => rfl
  refine .plain hdue (hafter _) ?_ ?_
  · rw [serve_store]
    cases r with
    | reserve | transition => cases hplain
    | claimDue workerId now leaseFor limit =>
      exact (shared.store.claimDue_spec workerId now leaseFor limit).1.sameFaces
    | startAttempt e version workerId =>
      exact shared.store.startAttempt_sameFaces surroundings.now e version workerId
    | record | get | clock | adapterFor | dispatch | probe => exact .refl _
  · cases r with
    | reserve | transition => cases hplain
    | record metric => exact sameSamples_record hplain shared.metrics
    | claimDue | startAttempt | get | clock | adapterFor | dispatch | probe => exact .refl _

/-- **What one answered request does.** -/
theorem meterStep (h : Coherent shared.store log) {l : CallerState × MeterState}
    (hl : localOf meteredProtocol log c = some l) {r : Request} (hallowed : MeterAllowed l.2 r)
    (surroundings : Surroundings Decision) :
    MeterStep shared.store (serve memoryStore adapters r surroundings shared).2.store
      shared.metrics (serve memoryStore adapters r surroundings shared).2.metrics l.2 r
      (serve memoryStore adapters r surroundings shared).1 := by
  have hknown := (localOf_known hl).1
  have hcurrent : ∀ known ∈ l.2.known, Current shared.store known := fun known hm =>
    h.known c l.1 (localOf_both_some hl).1 known (hknown ▸ hm)
  cases hallowed with
  | @submit reservation hdue => exact .submitRecorded hdue rfl rfl
  | @recordMove before after hdue hbefore => exact .moveRecorded hdue hbefore rfl rfl
  | plain hdue hplain => exact meterStep_plain hdue hplain surroundings
  | reserve hdue => exact meterStep_reserve h hdue surroundings
  | move hdue hrecords =>
    refine meterStep_transition h hcurrent hdue surroundings fun hsilent => ?_
    rw [hrecords] at hsilent
    cases hsilent
  | @resolve effect target data hdue heffect hreview hresolution =>
    exact meterStep_transition h hcurrent hdue surroundings fun _ =>
      ⟨effect, heffect, rfl, rfl, hreview, hresolution⟩

/-! ## Whole runs -/

/-- A move that is to be recorded: the caller knows both ends of it. -/
def Departed (l : MeterState) : Prop :=
  ∀ e version after, l.due = .moved e version after → after.effectId = e ∧
    ∃ before, isAllowed before.status after.status = true ∧ unknownKey after = unknownKey before ∧
      ∀ known ∈ l.known, known.effectId = e → known.version = version → known = before

/-- Whatever a request does, only a move makes a move due. -/
theorem MeterStep.departed {s s' : InMemoryStore} {m m' : Metrics} {l : MeterState} {r : Request}
    {response : Response r} (h : MeterStep s s' m m' l r response) : Departed (l.after r response) := by
  intro e version after hdue
  cases h with
  | plain _ hnothing =>
    rw [hnothing] at hdue
    cases hdue
  | submitRecorded | moveRecorded | replayed | created => cases hdue
  | @moved _ before target now _ _ _ hid hallowed hsame =>
    change (if l.procedure.recordsMoves = true then Due.moved _ _ _ else .nothing) = _ at hdue
    split at hdue <;> cases hdue
    refine ⟨hid, before, hallowed, rfl, fun known hm he hv => ?_⟩
    rcases List.mem_cons.mp hm with rfl | hm
    · -- the record after the move has the next version
      have hnext : before.version + 1 = before.version := by exact_mod_cast hv
      omega
    · exact hsame known hm he (by exact_mod_cast hv)

/-- A caller runs the procedure that it has called. -/
theorem taskOf_of_localOf {l : MeterState} (h : localOf meterProtocol log c = some l) :
    taskOf log c = some l.procedure := by
  induction log generalizing l with
  | nil => cases h
  | cons event log ih =>
    cases event with
    | called d task =>
      by_cases hd : c = d
      · have hstart := (if_pos hd).symm.trans h
        cases hstart
        exact if_pos hd
      · exact (if_neg hd).trans (ih ((if_neg hd).symm.trans h))
    | answered d r response =>
      by_cases hd : c = d
      · obtain ⟨before, hbefore, rfl⟩ := Option.map_eq_some_iff.mp ((if_pos hd).symm.trans h)
        have htask : taskOf log c = some before.procedure := ih hbefore
        exact htask
      · exact ih ((if_neg hd).symm.trans h)
    | began | landed | stopped => exact ih h

/-- What each call and each answer keeps holds in every run; other events change nothing. -/
theorem metered_invariant {I : InMemoryStore → Metrics → (Nat → Option MeterState) → Prop}
    {P : List BrokerEvent → BrokerEvent → Prop}
    (h : ProtocolRun (memoryBroker adapters) meteredProtocol
      (.initial hashes tenantKeyProvider target) shared log)
    (hP : Throughout P log) (hinit : I (.initial hashes tenantKeyProvider) {} fun _ => none)
    (hcall : ∀ {s m locals c task}, I s m locals → locals c = none →
      I s m (Function.update locals c (some (meterProtocol.start task))))
    (hanswer : ∀ {s s' m m' older c l r} {response : Response r}, I s m (localOf meterProtocol older) →
      s.Owned → localOf meterProtocol older c = some l → Departed l →
      MeterStep s s' m m' l r response → P older (.answered c r response) →
      I s' m' (Function.update (localOf meterProtocol older) c (some (l.after r response)))) :
    I shared.store shared.metrics (localOf meterProtocol log) := by
  suffices hall : I shared.store shared.metrics (localOf meterProtocol log) ∧ shared.store.Kept ∧
      shared.store.Owned ∧ ∀ c l, localOf meterProtocol log c = some l → Departed l from hall.1
  induction h with
  | initial =>
    refine ⟨hinit, InMemoryStore.kept_initial .., fun _ _ => ⟨rfl, rfl⟩, fun _ _ h => nomatch h⟩
  | @call s log c task _ hnone ih =>
    obtain ⟨hI, hkept, howned, hdeparted⟩ := ih hP.2
    rw [localOf_called_eq]
    refine ⟨hcall hI (localOf_both_none hnone).2, hkept, howned, fun d l hd => ?_⟩
    by_cases hdc : d = c
    · rw [hdc, Function.update_self] at hd
      cases hd
      exact fun _ _ _ hdue => nomatch hdue
    · rw [Function.update_of_ne hdc] at hd
      exact hdeparted d l hd
  | begin _ _ _ _ _ ih | land _ _ ih | stop _ ih => exact ih hP.2
  | disturb _ _ ih => exact ih hP
  | @answer s log c l r input hrun hl hallowed _ ih =>
    obtain ⟨hI, hkept, howned, hdeparted⟩ := ih hP.2
    have hlocal := (localOf_both_some hl).2
    have hstep : MeterStep s.store (serve memoryStore adapters r input s).2.store s.metrics
        (serve memoryStore adapters r input s).2.metrics l.2 r
        (serve memoryStore adapters r input s).1 :=
      meterStep (coherent_of_protocolRun hrun.fst) hl hallowed.2 input
    have hnext := localOf_answered_eq meterProtocol hlocal (serve memoryStore adapters r input s).1
    refine ⟨hnext ▸ hanswer hI howned hlocal (hdeparted c l.2 hlocal) hstep hP.1, ?_, ?_,
      fun d l' hd => ?_⟩
    · rcases serve_storeCall adapters r input s with heq | ⟨call, heq⟩
      · exact heq ▸ hkept
      · exact heq ▸ (InMemoryStore.serve_spec hkept call).1
    · rcases serve_storeCall adapters r input s with heq | ⟨call, heq⟩
      · exact heq ▸ howned
      · exact heq ▸ howned.serve hkept call
    · have hd' := (congrFun hnext d).symm.trans hd
      by_cases hdc : d = c
      · rw [hdc, Function.update_self] at hd'
        cases hd'
        exact hstep.departed
      · rw [Function.update_of_ne hdc] at hd'
        exact hdeparted d l' hd'

variable {w : World Response Exc Procedure Reply (Shared InMemoryStore Target)}

theorem metered_possible (hrun : ProtocolRun (memoryBroker adapters) meteredProtocol
      (.initial hashes tenantKeyProvider target) shared log) (r : Request)
    (surroundings : Surroundings Decision) :
    meteredProtocol.Possible r (serve memoryStore adapters r surroundings shared).1 :=
  ⟨(coherent_of_protocolRun hrun.fst).possible_serve r surroundings, trivial⟩

/-- Runs of the broker's procedures are runs of both protocols. -/
theorem reachable_metered
    (h : (memoryBroker adapters).Reachable (.initial hashes tenantKeyProvider target) w) :
    ProtocolRun (memoryBroker adapters) meteredProtocol (.initial hashes tenantKeyProvider target)
      w.shared w.log :=
  (reachable_protocolRun (fun task => ((program_follows task).both (program_meters task)).mono
    fun _ _ _ => trivial) metered_possible h).1

/-- The caller has called nothing yet, or its call has returned or raised. -/
def AtRest (w : World Response Exc Procedure Reply (Shared InMemoryStore Target)) (c : Nat) : Prop :=
  w.callers c = .absent ∨ ∃ result, w.callers c = .running (Coroutine.ofExcept result)

instance (w : World Response Exc Procedure Reply (Shared InMemoryStore Target)) (c : Nat) :
    Decidable (AtRest w c) :=
  match h : w.callers c with
  | .absent => .isTrue (.inl h)
  | .running (.done reply) => .isTrue (.inr ⟨.ok reply, h⟩)
  | .running (.raised exc) => .isTrue (.inr ⟨.error exc, h⟩)
  | .running (.await r resume) => .isFalse fun hrest => by
    rcases hrest with habsent | ⟨result, hrunning⟩
    · cases h.symm.trans habsent
    · cases result <;> cases h.symm.trans hrunning
  | .stopped => .isFalse fun hrest => by
    rcases hrest with habsent | ⟨result, hrunning⟩
    · cases h.symm.trans habsent
    · cases h.symm.trans hrunning

/-- A call that has ended has recorded all it did. -/
theorem due_of_atRest
    (h : (memoryBroker adapters).Reachable (.initial hashes tenantKeyProvider target) w)
    (hc : AtRest w c) : dueOf w.log c = .nothing := by
  have hprogram := fun task => (program_follows task).both (program_meters task)
  rcases hc with habsent | ⟨result, hrunning⟩
  · have hconforms := (reachable_protocolRun (fun task => (hprogram task).mono fun _ _ _ => trivial)
      metered_possible h).2 c
    rw [habsent] at hconforms
    unfold dueOf
    rw [(localOf_both_none hconforms.1).2]
    rfl
  · obtain ⟨l, hl, hf⟩ := reachable_follows hprogram metered_possible h hrunning
    unfold dueOf
    rw [(localOf_both_some hl).2]
    exact (Coroutine.follows_ofExcept.mp hf).2

/-- The sample effect is dispatched with an unknown outcome, and handed over to an
operator. -/
def reviewedRun : List (Choice Procedure (Surroundings AnyAnswer)) :=
  let surroundings : Surroundings AnyAnswer :=
    ⟨sampleTime 0, [], .ok (), .error (.other (str "TimeoutError") []), .error .overflowError⟩
  let contract := sampleContract .unsafeClass 0
  submitSample 0 contract surroundings ++ claimSample 1 (sampleTime 0) surroundings ++
    List.replicate 3 (.answer 1 surroundings) ++
    .call 2 (.reconcile (sampleBroker contract) sampleTenant (effectIdOf 1)) ::
    List.replicate 4 (.answer 2 surroundings)

end
end EffectBroker
