import EffectBroker.DurableCharges
import EffectBroker.HttpRuns

/-!
# Receipts over HTTP

From end to end: requests, workers and the durable target.  A receipt that a tenant has been
shown names the one charge that the target has for the effect, from then on.
-/
namespace EffectBroker
open Python Concurrency

/-! ## Receipts and successes -/

section
variable {Target Decision : Type} {adapters : Adapters Target Decision} {hashes : Hashes}
  {tenantKeyProvider : TenantKeyProvider} {target : Target} {e : Str}

theorem mem_transitionsIn {ms : List Moment} {event : Nat × Datetime × Items} (h : event ∈ transitionsIn ms) :
    ∃ mover after data source, .moved mover after data ∈ ms ∧
      event.2.2 = InMemoryStore.transitionData source after.status data := by
  induction ms with
  | nil => cases h
  | cons m ms ih =>
    have older : event ∈ transitionsIn ms → ∃ mover after data source, .moved mover after data ∈ m :: ms ∧
        event.2.2 = InMemoryStore.transitionData source after.status data := fun h => by
      obtain ⟨mover, after, data, source, hm, hevent⟩ := ih h
      exact ⟨mover, after, data, source, List.mem_cons_of_mem _ hm, hevent⟩
    cases m with
    | moved mover after data =>
      rcases List.mem_cons.mp h with rfl | h
      · exact ⟨mover, after, data, _, List.mem_cons_self .., rfl⟩
      · exact older h
    | _ => exact older h

/-- The data of the success that a receipt shows is in the log. -/
theorem success_of_receipt
    {v : World Response Exc Procedure Reply (Shared InMemoryStore Target)}
    (h : (memoryBroker adapters).Reachable (.initial hashes tenantKeyProvider target) v) {tenantId : Str}
    {receipt : Items} (hreceipt : v.shared.store.receipt tenantId e = some receipt) :
    ∃ c version data after, .answered c (.transition e version .succeeded data)
        (.ok after : Except Exc EffectRecord) ∈ v.log ∧
      receipt.get? (str "metadata") = some (.dict data) := by
  have hrun := (reachable_runs h).1
  unfold InMemoryStore.receipt at hreceipt
  split at hreceipt
  · cases hreceipt
  · obtain ⟨⟨metadata, at_⟩, hlast, rfl⟩ := Option.map_eq_some_iff.mp hreceipt
    rw [InMemoryStore.lastSuccess_eventsOf, streamed_of_protocolRun hrun e] at hlast
    obtain ⟨event, hfind, hevent⟩ := Option.map_eq_some_iff.mp hlast
    obtain ⟨mover, after, data, source, hm, hdata⟩ := mem_transitionsIn (List.mem_of_find?_eq_some hfind)
    have hstatus := List.find?_some hfind
    rw [hdata] at hstatus hevent
    obtain rfl : data = metadata := (Prod.mk.inj hevent).1
    have hstatus : (after.status.value == EffectStatus.succeeded.value) = true := hstatus
    have hsucceeded : after.status = .succeeded := EffectStatus.value_injective (eq_of_beq hstatus)
    obtain ⟨event, hevent, older, hmeans⟩ := mem_momentsOf hm
    cases hmeans with
    | @moved c version status =>
      obtain rfl : after.status = status := possible_of_answered hrun hevent
      rw [hsucceeded] at hevent
      exact ⟨c, version, data, after, hevent, rfl⟩

end

/-! ## Runs of the process -/

section
variable {process : HttpProcess} {hashes : Hashes} {tenantKeyProvider : TenantKeyProvider}
  {w : World (Sum.elim Response ReadResponse) Exc ProcessTask ProcessReply
    (Shared InMemoryStore DurableTarget)} {c : Nat} {credentials : Credentials} {e : Str}

theorem errorResponse_ne_receipt {exc : Exc} {receipt : Items} :
    errorResponse exc ≠ ⟨200, .receipt receipt⟩ := by
  unfold errorResponse
  split
  · exact fun h => by cases (HttpResponse.mk.inj h).2
  · exact fun h => by cases (HttpResponse.mk.inj h).2

theorem denial_ne_receipt {denial : Denial} {receipt : Items} :
    denial.response ≠ ⟨200, .receipt receipt⟩ := by
  cases denial with
  | unauthorized => exact fun h => by cases (HttpResponse.mk.inj h).2
  | raised exc => exact errorResponse_ne_receipt

/-- An operator's resolution has come in as a request. -/
theorem request_of_resolve {task : ProcessTask} {tenantId : Str} {status : EffectStatus} {evidence : Items}
    (h : (process.admits task).task? = some (.resolve tenantId e status evidence)) :
    ∃ credentials body, task = .effects credentials (.resolveEffect e body) ∧
      body.resolution.status = status ∧ body.evidence = evidence := by
  cases task with
  | healthz | metrics | work => cases h
  | effects credentials request =>
    simp only [HttpProcess.admits] at h
    cases hauth : requireTenant process.authenticator process.hashes credentials with
    | error denial =>
      simp only [hauth] at h
      cases h
    | ok tenant =>
      simp only [hauth] at h
      cases request with
      | resolveEffect effectId body =>
        cases h
        exact ⟨credentials, body, rfl, rfl, rfl⟩
      | submitEffect | getEffect | getReceipt | reconcileEffect | listEffects | cancelEffect => cases h

/-- The receipt names the one charge for the effect, or shows what an operator has said. -/
def NamesTheCharge
    (w : World (Sum.elim Response ReadResponse) Exc ProcessTask ProcessReply
      (Shared InMemoryStore DurableTarget)) (e : Str) (receipt : Items) : Prop :=
  ∃ (effect : EffectRecord) (data : Items), w.shared.store.records.get? e = some effect ∧
    receipt.get? (str "metadata") = some (.dict data) ∧
    ((∃ row, w.shared.target.effects.filter (·.downstreamKey = effect.downstreamKey) = [row] ∧
        data.get? (str "external_id") = some (.str row.externalId)) ∨
      ∃ d credentials body, taskIn w.log d = some (.effects credentials (.resolveEffect e body)) ∧
        body.resolution = .succeeded ∧
        data = [(text "evidence", .dict body.evidence), (text "actor", text "operator")])

/-- What a process has been shown is a receipt that the ledger had. -/
theorem receipt_of_response
    (h : (httpProcess process durableAdapters).Reachable (.initial hashes tenantKeyProvider .empty) w)
    (htask : taskIn w.log c = some (.effects credentials (.getReceipt e))) {receipt : Items}
    (hresult : (w.callers c).result? = some (.ok (.response ⟨200, .receipt receipt⟩))) :
    ∃ u tenantId, (httpProcess process durableAdapters).Reachable (.initial hashes tenantKeyProvider .empty) u ∧
      (httpProcess process durableAdapters).ReachableFrom u w ∧
      u.shared.store.receipt tenantId e = some receipt := by
  obtain ⟨v, hv, hbehind⟩ := reachable_front h
  have hends := hbehind.ends htask hresult
  simp only [HttpProcess.admits] at hends
  cases hauth : requireTenant process.authenticator process.hashes credentials with
  | error denial =>
    simp only [hauth] at hends
    exact absurd (ProcessReply.response.inj (Except.ok.inj hends)).symm denial_ne_receipt
  | ok tenantId =>
    simp only [hauth] at hends
    obtain ⟨result, hm, hresponse⟩ := hends
    have hresponse := ProcessReply.response.inj (Except.ok.inj hresponse)
    -- the receipt was read from the ledger as it was then
    obtain ⟨u, u', input, hu, hs, -, hread, -, hlater⟩ := h.at_answer hm
    have hread : result = Broker.replayReceipt u.shared.store tenantId e := hread
    refine ⟨u, tenantId, hu, System.ReachableFrom.trans _ (.step .start hs) hlater, ?_⟩
    unfold Broker.replayReceipt at hread
    cases hreceipt : u.shared.store.receipt tenantId e with
    | none =>
      rw [hreceipt] at hread
      rw [hread] at hresponse
      exact absurd hresponse.symm errorResponse_ne_receipt
    | some found =>
      rw [hreceipt] at hread
      rw [hread] at hresponse
      cases hresponse
      rfl

/-- **A receipt over HTTP names the one charge**: whatever requests and workers have done since,
and wherever they have stopped. -/
theorem http_receipts_name_charges
    (h : (httpProcess process durableAdapters).Reachable (.initial hashes tenantKeyProvider .empty) w)
    (htask : taskIn w.log c = some (.effects credentials (.getReceipt e))) {receipt : Items}
    (hresult : (w.callers c).result? = some (.ok (.response ⟨200, .receipt receipt⟩))) :
    NamesTheCharge w e receipt := by
  obtain ⟨u, tenantId, hu, hlater, hreceipt⟩ := receipt_of_response h htask hresult
  obtain ⟨v, hv, hbehind⟩ := reachable_front h
  obtain ⟨v', hv', hbehind'⟩ := reachable_front hu
  rw [← hbehind'.shared] at hreceipt
  obtain ⟨d, version, data, after, hm, hmetadata⟩ := success_of_receipt hv' hreceipt
  -- the success is in the log of the later world
  obtain ⟨newer, hlog⟩ := hlater.log_append
  have hm : .answered d (.transition e version .succeeded data) (.ok after : Except Exc EffectRecord) ∈
      v.log := by
    rw [hbehind.log, hlog]
    exact behind_subset_append newer (hbehind'.log ▸ hm)
  have hrun := (reachable_runs hv).1
  have honce := (chargesTold_of_protocolRun rfl hrun).chargedOnce (memory_keyOf_of_seen hrun)
  obtain ⟨key, ⟨effect, hget, hkey⟩, hnames⟩ := honce.successes d e version data after hm
  rw [hbehind.shared] at hget hnames
  refine ⟨effect, data, hget, hmetadata, ?_⟩
  rcases hnames with hrow | ⟨d, tenantId, evidence, hcalled, hdata⟩
  · left
    rw [hkey]
    exact hrow
  · right
    obtain ⟨procedure, hprocedure⟩ := taskIn_of_called hcalled
    obtain rfl := hv.called_unique hcalled (mem_of_taskIn hprocedure)
    rw [hbehind.tasks d] at hprocedure
    obtain ⟨task, htask, hadmits⟩ := Option.bind_eq_some_iff.mp hprocedure
    obtain ⟨credentials, body, rfl, hstatus, rfl⟩ := request_of_resolve hadmits
    refine ⟨d, credentials, body, htask, ?_, hdata⟩
    cases hresolution : body.resolution with
    | succeeded => rfl
    | failedFinal | compensated =>
      rw [hresolution] at hstatus
      cases hstatus

end

/-- The sample effect is submitted, dispatched by a worker, and its receipt is asked for. -/
def receiptProcess : World (Sum.elim Response ReadResponse) Exc ProcessTask ProcessReply
    (Shared InMemoryStore DurableTarget) :=
  let serving : Surroundings DurableTarget.Moment := ⟨sampleTime 1, str "1", ⟨sampleTime 1, none⟩⟩
  (httpProcess sampleProcess durableAdapters).after
    (World.initial (.initial sampleHashes sampleKeys .empty))
    (.call 0 (.effects sampleCredentials submitRequest) :: List.replicate 2 (.answer 0 serving) ++
      .call 1 (.work (str "w") (sampleTime 1) .zero 1) :: List.replicate 6 (.answer 1 serving) ++
      .begin 1 :: List.replicate 3 (.answer 1 serving) ++
      [.call 2 (.effects sampleCredentials (.getReceipt (effectIdOf 1))), .answer 2 serving])

theorem http_receipts_name_charges_sample : ∃ receipt : Items,
    (receiptProcess.callers 2).result? = some (.ok (.response ⟨200, .receipt receipt⟩)) ∧
      receiptProcess.shared.target.effects.length = 1 ∧
      NamesTheCharge receiptProcess (effectIdOf 1) receipt := by
  have hresult : ∃ receipt : Items,
      (receiptProcess.callers 2).result? = some (.ok (.response ⟨200, .receipt receipt⟩)) := ⟨_, rfl⟩
  obtain ⟨receipt, hresult⟩ := hresult
  exact ⟨receipt, hresult, by decide +kernel,
    http_receipts_name_charges (System.reachableFrom_after _ _ _) rfl hresult⟩

end EffectBroker
