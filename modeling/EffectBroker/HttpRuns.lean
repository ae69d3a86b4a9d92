import EffectBroker.HttpApi
import EffectBroker.TenantProtocol

/-!
# Runs of the HTTP process

Requests of any number of tenants and the batches of workers interleave over one in-memory
ledger.  `requests_stay_with_tenant` says what an API key is worth: whatever a request moves,
attempts or presents to an adapter, and whatever its response shows, is of the tenant whose key
it carries.
-/
namespace EffectBroker
open Python Concurrency

/-! ## Keys -/

namespace APIKeyAuthenticator

theorem mem_of_tenantOfHash {incoming tenantId : Str} {items : List (Str × Str)}
    (h : tenantOfHash incoming items = .ok (some tenantId)) : (incoming, tenantId) ∈ items := by
  induction items with
  | nil => cases h
  | cons item items ih =>
    obtain ⟨storedHash, tenant⟩ := item
    unfold tenantOfHash at h
    obtain ⟨same, hsame, h⟩ := bind_eq_ok.mp h
    cases same with
    | false => exact List.mem_cons_of_mem _ (ih h)
    | true =>
      cases h
      unfold compareDigest at hsame
      split at hsame
      · obtain rfl := of_decide_eq_true (Except.ok.inj hsame)
        exact List.mem_cons_self ..
      · cases hsame

end APIKeyAuthenticator

/-- The credentials carry a key whose hash is one of the tenant's. -/
def Credentials.Prove (credentials : Credentials) (authenticator : APIKeyAuthenticator) (hashes : Hashes)
    (tenantId : Str) : Prop :=
  ∃ rawKey digest, credentials.rawKey = some rawKey ∧ rawKey ≠ [] ∧ hashApiKey hashes rawKey = .ok digest ∧
    authenticator.keyHashToTenant.get? digest = some tenantId

/-- A request is let in by its key alone. -/
theorem requireTenant_ok {authenticator : APIKeyAuthenticator} {hashes : Hashes} {credentials : Credentials}
    {tenantId : Str} (h : requireTenant authenticator hashes credentials = .ok tenantId) :
    credentials.Prove authenticator hashes tenantId := by
  unfold requireTenant at h
  split at h
  · cases h
  · cases h
  · rename_i rawKey hne hkey
    split at h
    · cases h
    · cases h
    · rename_i found hfound
      cases h
      unfold APIKeyAuthenticator.tenantForKey at hfound
      obtain ⟨digest, hdigest, hfound⟩ := bind_eq_ok.mp hfound
      exact ⟨rawKey, digest, hkey, hne, hdigest,
        Dict.get?_of_mem_items (APIKeyAuthenticator.mem_of_tenantOfHash hfound)⟩

/-- The key for development opens nothing but its tenant, and only where it is enabled and its
hash is not a configured one. -/
theorem prove_fromSettings {hashes : Hashes} {apiKeyHashes : Dict Str Str} {devApiKeyEnabled : Bool}
    {devApiKey devTenantId tenantId : Str} {authenticator : APIKeyAuthenticator}
    {credentials : Credentials}
    (h : APIKeyAuthenticator.fromSettings hashes apiKeyHashes devApiKeyEnabled devApiKey devTenantId =
      .ok authenticator) :
    credentials.Prove authenticator hashes tenantId ↔ credentials.Prove ⟨apiKeyHashes⟩ hashes tenantId ∨
      devApiKeyEnabled = true ∧ tenantId = devTenantId ∧ ∃ rawKey digest,
        credentials.rawKey = some rawKey ∧ rawKey ≠ [] ∧ hashApiKey hashes rawKey = .ok digest ∧
          hashApiKey hashes devApiKey = .ok digest ∧ apiKeyHashes.get? digest = none := by
  unfold APIKeyAuthenticator.fromSettings at h
  split at h
  · rename_i henabled
    obtain ⟨devDigest, hdev, h⟩ := bind_eq_ok.mp h
    cases h
    cases hconfigured : apiKeyHashes.get? devDigest with
    | some tenant =>
      refine ⟨.inl, fun hprove => hprove.resolve_right ?_⟩
      rintro ⟨-, -, _, digest, -, -, -, hdigest, hnone⟩
      cases hdev.symm.trans hdigest
      cases hconfigured.symm.trans hnone
    | none =>
      constructor
      · rintro ⟨rawKey, digest, hkey, hne, hhash, hget⟩
        rw [Dict.get?_set] at hget
        split at hget
        · rename_i hsame
          subst hsame
          exact .inr ⟨henabled, (Option.some.inj hget).symm, rawKey, digest, hkey, hne, hhash, hdev,
            hconfigured⟩
        · exact .inl ⟨rawKey, digest, hkey, hne, hhash, hget⟩
      · rintro (⟨rawKey, digest, hkey, hne, hhash, hget⟩ |
          ⟨-, rfl, rawKey, digest, hkey, hne, hhash, hdigest, hnone⟩)
        · refine ⟨rawKey, digest, hkey, hne, hhash, (Dict.get?_set ..).trans ?_⟩
          rw [if_neg fun hsame => ?_, hget]
          rw [hsame] at hget
          cases hconfigured.symm.trans hget
        · cases hdev.symm.trans hdigest
          exact ⟨rawKey, devDigest, hkey, hne, hhash, (Dict.get?_set ..).trans (if_pos rfl)⟩
  · rename_i hdisabled
    cases h
    exact ⟨.inl, fun hprove => hprove.resolve_right fun hdev => hdisabled hdev.1⟩

/-! ## What responses show -/

/-- The effects that a body shows. -/
def HttpBody.effectIds : HttpBody → List Str
  | .reservation body => [body.effectId]
  | .effect body => [body.effectId]
  | .effects body => body.items.map EffectBody.effectId
  | .receipt body => match body.get? (str "effect_id") with
    | some (.str effectId) => [effectId]
    | _ => []
  | .reconciled body => [body.effectId]
  | .health _ | .metrics _ | .problem _ | .detail _ | .internalServerError => []

theorem errorResponse_effectIds (exc : Exc) : (errorResponse exc).body.effectIds = [] := by
  unfold errorResponse
  split <;> rfl

theorem Denial.response_effectIds (denial : Denial) : denial.response.body.effectIds = [] := by
  cases denial with
  | unauthorized => rfl
  | raised exc => exact errorResponse_effectIds exc

/-- The response shows no other effects than the reply does. -/
def Renders (render : Except Exc Reply → Except Exc ProcessReply) : Prop :=
  ∀ result response, render result = .ok (.response response) → ∀ e ∈ response.body.effectIds,
    ∃ reply, result = .ok reply ∧ ∃ record ∈ reply.records, record.effectId = e

theorem renders_effectReply {render : EffectRecord → HttpResponse}
    (h : ∀ effect, (render effect).body.effectIds = [effect.effectId]) :
    Renders (HttpProcess.effectReply render) := by
  intro result response hresponse e he
  cases result with
  | error exc =>
    cases hresponse
    change e ∈ (errorResponse exc).body.effectIds at he
    rw [errorResponse_effectIds] at he
    cases he
  | ok reply =>
    cases reply with
    | effect effect =>
      cases hresponse
      change e ∈ (render effect).body.effectIds at he
      rw [h] at he
      exact ⟨_, rfl, effect, List.mem_singleton_self _, (List.mem_singleton.mp he).symm⟩
    | reservation | effects =>
      cases hresponse
      cases he

theorem renders_reservationReply : Renders HttpProcess.reservationReply := by
  intro result response hresponse e he
  cases result with
  | error exc =>
    cases hresponse
    change e ∈ (errorResponse exc).body.effectIds at he
    rw [errorResponse_effectIds] at he
    cases he
  | ok reply =>
    cases reply with
    | reservation reservation =>
      cases hresponse
      exact ⟨_, rfl, reservation.effect, List.mem_singleton_self _, (List.mem_singleton.mp he).symm⟩
    | effect | effects =>
      cases hresponse
      cases he

/-! ## Admitted requests -/

section
variable {process : HttpProcess} {credentials : Credentials} {request : EffectsRequest} {tenantId : Str}
  {procedure : Procedure}

/-- What is handed on is a procedure of the tenant. -/
theorem tenant_of_authorized (h : (process.authorized tenantId request).task? = some procedure) :
    procedure.tenant? = some tenantId := by
  cases request with
  | getReceipt | listEffects => cases h
  | submitEffect | getEffect | reconcileEffect | resolveEffect | cancelEffect =>
    cases h
    rfl

theorem tenant_of_admits (h : (process.admits (.effects credentials request)).task? = some procedure) :
    ∃ tenantId, requireTenant process.authenticator process.hashes credentials = .ok tenantId ∧
      procedure.tenant? = some tenantId := by
  simp only [HttpProcess.admits] at h
  cases hauth : requireTenant process.authenticator process.hashes credentials with
  | error denial =>
    rw [hauth] at h
    cases h
  | ok tenantId =>
    rw [hauth] at h
    exact ⟨tenantId, rfl, tenant_of_authorized h⟩

theorem procedure_of_localOf {log : List BrokerEvent} {c : Nat} {l : TenantState}
    (h : localOf tenantProtocol log c = some l) : taskIn log c = some l.procedure :=
  taskIn_of_localOf TenantState.procedure (fun _ => rfl) (fun _ _ _ => rfl) h

end

/-! ## Runs -/

section
variable {Target Decision : Type} {adapters : Adapters Target Decision} {process : HttpProcess}
  {hashes : Hashes} {tenantKeyProvider : TenantKeyProvider} {target : Target} {tenantId e : Str}

/-- The broker, whatever has been called on it, keeps to its tenants. -/
theorem tenantsHold_of_reachable
    {v : World Response Exc Procedure Reply (Shared InMemoryStore Target)}
    (h : (memoryBroker adapters).Reachable (.initial hashes tenantKeyProvider target) v) :
    TenantsHold v.shared.store v.log :=
  tenantsHold_of_protocolRun (reachable_protocolRun (P := tenantProtocol)
    (fun procedure => (program_follows_tenant procedure).mono fun _ _ _ => trivial)
    (fun _ _ _ => trivial) h).1

/-- What a tenant's procedure returns is the tenant's. -/
theorem ownedBy_result {v : World Response Exc Procedure Reply (Shared InMemoryStore Target)}
    (h : (memoryBroker adapters).Reachable (.initial hashes tenantKeyProvider target) v) {c : Nat}
    {procedure : Procedure} (htask : taskIn v.log c = some procedure)
    (htenant : procedure.tenant? = some tenantId) {reply : Reply}
    (hresult : (v.callers c).result? = some (.ok reply)) :
    ∀ record ∈ reply.records, v.shared.store.OwnedBy tenantId record.effectId := by
  have hcaller : v.callers c = .running (.done reply) := by
    generalize v.callers c = caller at hresult
    cases caller with
    | absent | stopped => cases hresult
    | running p =>
      cases p with
      | done value =>
        cases hresult
        rfl
      | raised | await => cases hresult
  obtain ⟨l, hl, hend⟩ := reachable_follows (P := tenantProtocol) program_follows_tenant
    (fun _ _ _ => trivial) h hcaller
  have hprocedure : l.procedure = procedure :=
    Option.some.inj ((procedure_of_localOf hl).symm.trans htask)
  have htenant' : l.procedure.tenant? = some tenantId := hprocedure ▸ htenant
  intro record hrecord
  have hfound : reply.records ⊆ l.found := hend (by rw [htenant']; rfl) reply rfl
  exact (tenantsHold_of_reachable h).found c l hl tenantId htenant' record (hfound hrecord)

section
variable {u w : World (Sum.elim Response ReadResponse) Exc ProcessTask ProcessReply
  (Shared InMemoryStore Target)}

theorem kept_of_reachable
    (h : (httpProcess process adapters).Reachable (.initial hashes tenantKeyProvider target) w) :
    w.shared.store.Kept := by
  obtain ⟨v, hv, hbehind⟩ := reachable_front h
  rw [← hbehind.shared]
  exact (tenantsHold_of_reachable hv).kept

theorem ownedBy_step {choice : Choice ProcessTask (Surroundings Decision)}
    (hkept : u.shared.store.Kept) (hs : (httpProcess process adapters).step u choice = some w)
    (h : u.shared.store.OwnedBy tenantId e) : w.shared.store.OwnedBy tenantId e := by
  cases choice with
  | disturb input =>
    cases hs
    exact h
  | answer c input =>
    simp only [System.step] at hs
    split at hs
    · split at hs
      · cases hs
      · rename_i r resume hrunning hnow
        cases hs
        cases r with
        | inl r => exact ownedBy_serve h hkept input
        | inr query => exact h
    · cases hs
  | call | begin | land | stop =>
    simp only [System.step] at hs
    split at hs <;> (try split at hs) <;> cases hs
    all_goals exact h

/-- Effects stay with their tenants. -/
theorem ownedBy_later
    (hu : (httpProcess process adapters).Reachable (.initial hashes tenantKeyProvider target) u)
    (h : (httpProcess process adapters).ReachableFrom u w) (hown : u.shared.store.OwnedBy tenantId e) :
    w.shared.store.OwnedBy tenantId e := by
  induction h with
  | start => exact hown
  | step hrun hs ih => exact ownedBy_step (kept_of_reachable (hu.trans _ hrun)) hs ih

/-- What was read of a tenant is still the tenant's. -/
theorem ownedBy_read
    (h : (httpProcess process adapters).Reachable (.initial hashes tenantKeyProvider target) w) {c : Nat}
    {query : Read} {response : ReadResponse query} (hm : .answered c (.inr query) response ∈ w.log)
    (hread : ∀ s : Shared InMemoryStore Target, s.store.Kept → response = readMemory query s →
      s.store.OwnedBy tenantId e) : w.shared.store.OwnedBy tenantId e := by
  -- the state in which the read was answered
  obtain ⟨u, v, input, hu, hs, -, hresponse, hshared, hlater⟩ := h.at_answer hm
  have hown : u.shared.store.OwnedBy tenantId e := hread u.shared (kept_of_reachable hu) hresponse
  have hv : v.shared.store.OwnedBy tenantId e := by
    rw [hshared]
    exact hown
  exact ownedBy_later (hu.step hs) hlater hv

end

/-- A list shows effects of its tenant. -/
theorem InMemoryStore.ownedBy_of_list {s : InMemoryStore} (hkept : s.Kept) {status : Option EffectStatus}
    {limit offset : Int} {record : EffectRecord} (h : record ∈ s.list tenantId status limit offset) :
    s.OwnedBy tenantId record.effectId := by
  have hm := List.mem_of_mem_take (List.mem_of_mem_drop h)
  obtain ⟨hvalue, hfilter⟩ := List.mem_filter.mp ((List.mem_insertionSort _).mp hm)
  obtain ⟨⟨e, record⟩, hitem, rfl⟩ := List.mem_map.mp hvalue
  have hget := Dict.get?_of_mem_items hitem
  rw [← hkept.effectId e record hget] at hget
  exact ⟨record, hget, of_decide_eq_true (Bool.and_eq_true_iff.mp hfilter).1⟩

/-- A receipt is of an effect of its tenant. -/
theorem InMemoryStore.ownedBy_of_receipt {s : InMemoryStore} {effectId : Str} {receipt : Items}
    (h : Broker.replayReceipt s tenantId effectId = .ok receipt) :
    (HttpBody.receipt receipt).effectIds = [effectId] ∧ s.OwnedBy tenantId effectId := by
  unfold Broker.replayReceipt InMemoryStore.receipt at h
  cases hget : s.get tenantId effectId with
  | none =>
    rw [hget] at h
    cases h
  | some record =>
    rw [hget] at h
    cases hlast : InMemoryStore.lastSuccess (s.eventsOf effectId) with
    | none =>
      simp only [hlast] at h
      cases h
    | some last =>
      simp only [hlast] at h
      cases h
      exact ⟨rfl, record, InMemoryStore.ownedBy_of_get hget⟩

/-- What a request touches and what its response shows is its tenant's, who has proved it. -/
structure StaysWithTenant (process : HttpProcess)
    (w : World (Sum.elim Response ReadResponse) Exc ProcessTask ProcessReply (Shared InMemoryStore Target))
    (c : Nat) (credentials : Credentials) : Prop where
  /-- What it has moved, attempted or presented to an adapter. -/
  touched : ∀ (r : Request) (e : Str), e ∈ r.touched →
    (.began c (.inl r) ∈ w.log ∨ ∃ response, .answered c (.inl r) response ∈ w.log) →
      ∃ tenantId, credentials.Prove process.authenticator process.hashes tenantId ∧
        w.shared.store.OwnedBy tenantId e
  /-- What its response shows. -/
  shown : ∀ response, (w.callers c).result? = some (.ok (.response response)) →
    ∀ e ∈ response.body.effectIds,
      ∃ tenantId, credentials.Prove process.authenticator process.hashes tenantId ∧
        w.shared.store.OwnedBy tenantId e

variable {w : World (Sum.elim Response ReadResponse) Exc ProcessTask ProcessReply
    (Shared InMemoryStore Target)}
  {v : World Response Exc Procedure Reply (Shared InMemoryStore Target)}

/-- What the response to a request that was handed on shows. -/
theorem ownedBy_handed
    (hv : (memoryBroker adapters).Reachable (.initial hashes tenantKeyProvider target) v) {c : Nat}
    {procedure : Procedure} (htask : taskIn v.log c = some procedure)
    (htenant : procedure.tenant? = some tenantId) {render : Except Exc Reply → Except Exc ProcessReply}
    (hrender : Renders render) {response : HttpResponse}
    (hends : ∃ result, (v.callers c).result? = some result ∧ .ok (.response response) = render result) :
    ∀ e ∈ response.body.effectIds, v.shared.store.OwnedBy tenantId e := by
  obtain ⟨result, hresult, hresponse⟩ := hends
  intro e he
  obtain ⟨reply, rfl, record, hrecord, rfl⟩ := hrender result response hresponse.symm e he
  exact ownedBy_result hv htask htenant hresult record hrecord

/-- What the response to an admitted request shows. -/
theorem ownedBy_shown
    (h : (httpProcess process adapters).Reachable (.initial hashes tenantKeyProvider target) w)
    (hv : (memoryBroker adapters).Reachable (.initial hashes tenantKeyProvider target) v)
    (hbehind : IsBehind process.admits w v) {c : Nat} {request : EffectsRequest}
    (htask : taskIn v.log c = (process.authorized tenantId request).task?) {response : HttpResponse}
    (hends : Ends w v c (.ok (.response response)) (process.authorized tenantId request)) :
    ∀ e ∈ response.body.effectIds, w.shared.store.OwnedBy tenantId e := by
  cases request with
  | getReceipt effectId =>
    obtain ⟨result, hm, hresponse⟩ := hends
    cases hresponse
    intro e he
    refine ownedBy_read h hm fun s hkept hread => ?_
    cases hresult : Broker.replayReceipt s.store tenantId effectId with
    | error exc =>
      obtain rfl : result = .error exc := hread.trans hresult
      change e ∈ (errorResponse exc).body.effectIds at he
      rw [errorResponse_effectIds] at he
      cases he
    | ok receipt =>
      obtain rfl : result = .ok receipt := hread.trans hresult
      obtain ⟨hids, hown⟩ := InMemoryStore.ownedBy_of_receipt hresult
      change e ∈ (HttpBody.receipt receipt).effectIds at he
      rw [hids] at he
      rw [List.mem_singleton.mp he]
      exact hown
  | listEffects query =>
    obtain ⟨effects, hm, hresponse⟩ := hends
    cases hresponse
    intro e he
    refine ownedBy_read h hm fun s hkept hread => ?_
    obtain ⟨body, hbody, rfl⟩ := List.mem_map.mp he
    obtain ⟨effect, heffect, rfl⟩ := List.mem_map.mp hbody
    rw [hread] at heffect
    exact InMemoryStore.ownedBy_of_list hkept heffect
  | submitEffect body =>
    rw [← hbehind.shared]
    exact ownedBy_handed hv htask rfl renders_reservationReply hends
  | getEffect | reconcileEffect | resolveEffect | cancelEffect =>
    rw [← hbehind.shared]
    exact ownedBy_handed hv htask rfl (renders_effectReply fun _ => rfl) hends

/-- **A key opens the effects of its tenant alone**: whatever the others do in between, what a
request touches and what its response shows is of a tenant whose key it carries. -/
theorem requests_stay_with_tenant
    (h : (httpProcess process adapters).Reachable (.initial hashes tenantKeyProvider target) w) {c : Nat}
    {credentials : Credentials} {request : EffectsRequest}
    (htask : taskIn w.log c = some (.effects credentials request)) :
    StaysWithTenant process w c credentials := by
  obtain ⟨v, hv, hbehind⟩ := reachable_front h
  have htasks : taskIn v.log c = (process.admits (.effects credentials request)).task? := by
    rw [hbehind.tasks c, handedIn, htask]
    rfl
  constructor
  · -- only the broker behind the process touches effects
    intro r e he hm
    have htouched : Touched v.log c e := by
      refine ⟨r, he, ?_⟩
      rw [hbehind.log]
      exact hm.imp mem_behind_began (Exists.imp fun response => mem_behind_answered)
    obtain ⟨l, hl, hown⟩ := (tenantsHold_of_reachable hv).touched c e htouched
    obtain ⟨tenantId, hauth, htenant⟩ := tenant_of_admits (htasks.symm.trans (procedure_of_localOf hl))
    refine ⟨tenantId, requireTenant_ok hauth, ?_⟩
    rw [← hbehind.shared]
    exact hown tenantId htenant
  · -- the response is a denial, or one to the tenant of the key
    intro response hresult e he
    have hends := hbehind.ends htask hresult
    simp only [HttpProcess.admits] at hends htasks
    cases hauth : requireTenant process.authenticator process.hashes credentials with
    | error denial =>
      simp only [hauth] at hends
      cases hends
      rw [Denial.response_effectIds] at he
      cases he
    | ok tenantId =>
      simp only [hauth] at hends htasks
      exact ⟨tenantId, requireTenant_ok hauth, ownedBy_shown h hv hbehind htasks hends e he⟩

end

/-! ## A sample process -/

/-- A process with one key. -/
def sampleProcess : HttpProcess where
  broker := sampleBroker (sampleContract .idempotent 0)
  authenticator := ⟨Dict.empty.set (hexdigest (sampleHashes.sha256 [])) sampleTenant⟩
  hashes := sampleHashes

def sampleCredentials : Credentials := ⟨some (str "key"), none⟩

/-- Submit the sample operation. -/
def submitRequest : EffectsRequest :=
  .submitEffect ⟨str "order-1", str "charge", [(text "amount", .int 5)], str "agent", none⟩

/-- Cancel the sample effect. -/
def cancelRequest : EffectsRequest :=
  .cancelEffect (effectIdOf 1) ⟨0, str "alice", str "changed my mind", by decide, by decide, by decide⟩

/-- The sample effect is submitted and cancelled. -/
def cancelledProcess : World (Sum.elim Response ReadResponse) Exc ProcessTask ProcessReply
    (Shared InMemoryStore Unit) :=
  let surroundings : Surroundings AnyAnswer :=
    ⟨sampleTime 0, [], .ok (), .error .overflowError, .error .overflowError⟩
  (httpProcess sampleProcess anyAdapters).after (World.initial (.initial sampleHashes sampleKeys ()))
    (.call 0 (.effects sampleCredentials submitRequest) :: List.replicate 2 (.answer 0 surroundings) ++
      .call 1 (.effects sampleCredentials cancelRequest) :: List.replicate 3 (.answer 1 surroundings))

/-- The effects that a reply shows. -/
def ProcessReply.effectIds : ProcessReply → List Str
  | .response shown => shown.body.effectIds
  | .worked effects => effects.map EffectRecord.effectId

theorem requests_stay_with_tenant_sample :
    ((cancelledProcess.callers 1).result?.bind Except.toOption).map ProcessReply.effectIds =
      some [effectIdOf 1] ∧
    StaysWithTenant sampleProcess cancelledProcess 1 sampleCredentials := by
  have htask : taskIn cancelledProcess.log 1 = some (.effects sampleCredentials cancelRequest) := rfl
  exact ⟨by decide +kernel, requests_stay_with_tenant (System.reachableFrom_after _ _ _) htask⟩

end EffectBroker
