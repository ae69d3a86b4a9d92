import EffectBroker.HttpRuns

/-!
# What requests are told

Reads, cancellations and resolutions over the in-memory store raise refusals alone, so no handler
of theirs ends in an internal error, for a tenant who is let in.
-/
namespace EffectBroker
open Python Concurrency

/-- The effect is not there, or not in the state that was asked for. -/
def Exc.isRefusal : Exc → Bool
  | .unknownEffect _ | .versionConflict _ | .invalidTransition .. => true
  | _ => false

/-- A refusal is told as such. -/
theorem errorResponse_of_isRefusal {exc : Exc} (h : exc.isRefusal = true) :
    (errorResponse exc).status = 404 ∨ (errorResponse exc).status = 409 := by
  cases exc with
  | unknownEffect => exact .inl rfl
  | versionConflict | invalidTransition => exact .inr rfl
  | _ => cases h

/-! ## What procedures raise -/

/-- Lookups never raise, and moves raise refusals. -/
def OnlyRefuses : (r : Request) → Response r → Prop
  | .get .., response => ∃ found, response = .ok found
  | .transition .., response => ∀ exc, response = .error exc → exc.isRefusal = true
  | _, _ => True

/-- A caller is its procedure, which may ask for anything. -/
def refusalProtocol : Protocol Response Procedure Procedure where
  start := id
  Allowed _ _ := True
  Possible := OnlyRefuses
  after procedure _ _ := procedure

/-- The procedure reads, cancels or resolves. -/
def Procedure.isPlain : Procedure → Bool
  | .get .. | .cancel .. | .resolve .. => true
  | _ => false

/-- It ends with an effect, or a refusal. -/
def EndsPlain (procedure : Procedure) (result : Except Exc Reply) : Prop :=
  procedure.isPlain = true → (∃ effect, result = .ok (.effect effect)) ∨
    ∃ exc, result = .error exc ∧ exc.isRefusal = true

section
variable {α β : Type} {procedure : Procedure}

/-- The program raises refusals alone. -/
def RaisesRefusals (p : Program α) : Prop :=
  ∀ procedure, p.Follows refusalProtocol procedure fun after result => after = procedure ∧
    ∀ exc, result = .error exc → exc.isRefusal = true

theorem RaisesRefusals.bind {p : Program α} {f : α → Program β} (h : RaisesRefusals p)
    (hf : ∀ value, RaisesRefusals (f value)) : RaisesRefusals (p >>= f) := by
  intro procedure
  refine Coroutine.follows_bind.mpr ((h procedure).mono fun after result hend => ?_)
  obtain ⟨rfl, hraises⟩ := hend
  cases result with
  | error exc =>
    refine ⟨rfl, fun exc' hexc => hraises exc' ?_⟩
    cases hexc
    rfl
  | ok value => exact hf value after

theorem raisesRefusals_pure {value : α} : RaisesRefusals (pure value) :=
  fun _ => ⟨rfl, fun _ h => by cases h⟩

theorem raisesRefusals_throw {exc : Exc} (h : exc.isRefusal = true) :
    RaisesRefusals (throw exc : Program α) := by
  refine fun _ => ⟨rfl, fun exc' hexc => ?_⟩
  cases hexc
  exact h

theorem raisesRefusals_record {metric : Metric} : RaisesRefusals (Program.record metric) :=
  fun _ => ⟨trivial, fun _ _ => ⟨rfl, fun _ h => by cases h⟩⟩

theorem raisesRefusals_transition {e : Str} {version : Int} {target : EffectStatus} {data : Items} :
    RaisesRefusals (Program.transition e version target data) := by
  refine fun procedure => ⟨trivial, fun response hresponse => ?_⟩
  cases response with
  | ok after => exact ⟨rfl, fun _ h => by cases h⟩
  | error exc => exact ⟨rfl, hresponse⟩

theorem raisesRefusals_get {tenantId e : Str} : RaisesRefusals (Broker.get tenantId e) := by
  refine RaisesRefusals.bind (fun procedure => ⟨trivial, fun response hresponse => ?_⟩) fun effect? => ?_
  · obtain ⟨found, rfl⟩ := hresponse
    exact ⟨rfl, fun _ h => by cases h⟩
  · cases effect? with
    | none => exact raisesRefusals_throw rfl
    | some effect => exact raisesRefusals_pure

theorem raisesRefusals_cancel {tenantId e actor reason : Str} {expectedVersion : Int} :
    RaisesRefusals (Broker.cancel tenantId e expectedVersion actor reason) := by
  refine raisesRefusals_get.bind fun effect => ?_
  split
  · exact raisesRefusals_throw rfl
  · split
    · exact raisesRefusals_throw rfl
    · exact raisesRefusals_transition.bind fun _ => raisesRefusals_record.bind fun _ => raisesRefusals_pure

theorem raisesRefusals_resolve {tenantId e : Str} {resolution : EffectStatus} {evidence : Items} :
    RaisesRefusals (Broker.resolve tenantId e resolution evidence) := by
  refine raisesRefusals_get.bind fun effect => ?_
  split
  · exact raisesRefusals_throw rfl
  · split
    · exact raisesRefusals_throw rfl
    · exact raisesRefusals_transition

/-- Any program may ask for anything. -/
theorem follows_anything (p : Program α) (procedure : Procedure) :
    p.Follows refusalProtocol procedure fun after _ => after = procedure := by
  induction p with
  | done | raised => exact rfl
  | await r resume ih => exact ⟨trivial, fun response _ => ih response⟩

theorem program_follows_refusals (procedure : Procedure) :
    procedure.program.Follows refusalProtocol (refusalProtocol.start procedure) EndsPlain := by
  -- the three plain procedures end with an effect
  have hplain : ∀ {p : Program EffectRecord}, RaisesRefusals p →
      (p >>= fun effect => pure (.effect effect)).Follows refusalProtocol procedure EndsPlain := by
    intro p h
    refine Coroutine.follows_bind.mpr ((h procedure).mono fun after result hend => ?_)
    cases result with
    | ok effect => exact fun _ => .inl ⟨effect, rfl⟩
    | error exc => exact fun _ => .inr ⟨exc, rfl, hend.2 exc rfl⟩
  cases procedure with
  | get => exact hplain raisesRefusals_get
  | cancel => exact hplain raisesRefusals_cancel
  | resolve => exact hplain raisesRefusals_resolve
  | submit | reconcile | dispatchOnce =>
    refine (follows_anything _ _).mono fun after result hafter hplain => ?_
    rw [hafter] at hplain
    cases hplain

end

/-! ## Runs -/

/-- The in-memory store moves an effect, or refuses. -/
theorem InMemoryStore.transition_refusal {s : InMemoryStore} {now : Datetime} {e : Str} {version : Int}
    {target : EffectStatus} {data : Items} {exc : Exc}
    (h : (s.transition now e version target data).1 = .error exc) : exc.isRefusal = true := by
  unfold transition at h
  cases hrecord : s.recordForUpdate e version with
  | error exc' =>
    rw [hrecord] at h
    cases h
    unfold recordForUpdate at hrecord
    split at hrecord
    · cases hrecord
      rfl
    · split at hrecord <;> cases hrecord
      rfl
  | ok record =>
    rw [hrecord] at h
    simp only at h
    cases hassert : assertTransition record.status target with
    | error exc' =>
      rw [hassert] at h
      cases h
      unfold assertTransition at hassert
      split at hassert <;> cases hassert
      rfl
    | ok =>
      rw [hassert] at h
      cases h

/-- A request that reads, cancels or resolves. -/
def EffectsRequest.isPlain : EffectsRequest → Bool
  | .submitEffect _ | .reconcileEffect _ => false
  | _ => true

section
variable {Target Decision : Type} {adapters : Adapters Target Decision} {process : HttpProcess}
  {hashes : Hashes} {tenantKeyProvider : TenantKeyProvider} {target : Target}
  {w : World (Sum.elim Response ReadResponse) Exc ProcessTask ProcessReply (Shared InMemoryStore Target)}
  {v : World Response Exc Procedure Reply (Shared InMemoryStore Target)} {c : Nat}

theorem onlyRefuses_serve (r : Request) (surroundings : Surroundings Decision)
    (s : Shared InMemoryStore Target) : OnlyRefuses r (serve memoryStore adapters r surroundings s).1 := by
  cases r with
  | get tenantId e => exact ⟨_, rfl⟩
  | transition e version status data => exact fun exc hexc => InMemoryStore.transition_refusal hexc
  | _ => trivial

/-- A plain procedure has ended with an effect, or a refusal. -/
theorem endsPlain_of_reachable
    (hv : (memoryBroker adapters).Reachable (.initial hashes tenantKeyProvider target) v)
    {procedure : Procedure} (htask : taskIn v.log c = some procedure) {result : Except Exc Reply}
    (hresult : (v.callers c).result? = some result) : EndsPlain procedure result := by
  have hends : ∀ {p : Program Reply}, v.callers c = .running p →
      ∃ procedure', localOf refusalProtocol v.log c = some procedure' ∧
        p.Follows refusalProtocol procedure' EndsPlain :=
    fun hc => reachable_follows (S := memoryBroker adapters) (P := refusalProtocol) program_follows_refusals
      (fun _ r surroundings => onlyRefuses_serve r surroundings _) hv hc
  have hsame : ∀ {procedure'}, localOf refusalProtocol v.log c = some procedure' → procedure' = procedure :=
    fun hl => Option.some.inj ((taskIn_of_localOf id (fun _ => rfl) (fun _ _ _ => rfl) hl).symm.trans htask)
  generalize hcaller : v.callers c = caller at hresult
  cases caller with
  | absent | stopped => cases hresult
  | running p =>
    obtain ⟨procedure', hl, hfollows⟩ := hends hcaller
    rw [hsame hl] at hfollows
    cases p with
    | done value =>
      cases hresult
      exact hfollows
    | raised exc =>
      cases hresult
      exact hfollows
    | await => cases hresult

/-- The response of a plain procedure. -/
theorem status_of_effectReply {procedure : Procedure} (hplain : procedure.isPlain = true)
    {result : Except Exc Reply} (h : EndsPlain procedure result) {render : EffectRecord → HttpResponse}
    (hrender : ∀ effect, (render effect).status = 200) :
    ∃ response, HttpProcess.effectReply render result = .ok (.response response) ∧
      response.status ∈ [200, 404, 409] := by
  rcases h hplain with ⟨effect, rfl⟩ | ⟨exc, rfl, hrefusal⟩
  · refine ⟨render effect, rfl, ?_⟩
    rw [hrender]
    exact List.mem_cons_self ..
  · refine ⟨errorResponse exc, rfl, ?_⟩
    rcases errorResponse_of_isRefusal hrefusal with hstatus | hstatus <;> rw [hstatus] <;> decide

/-- **Tenants are told**: whatever the others do in between, a request of a known tenant that
reads, cancels or resolves ends with what it asked for, or with 404 or 409. -/
theorem plain_requests_are_told
    (h : (httpProcess process adapters).Reachable (.initial hashes tenantKeyProvider target) w)
    {credentials : Credentials} {request : EffectsRequest} (hplain : request.isPlain = true)
    (htask : taskIn w.log c = some (.effects credentials request)) {tenantId : Str}
    (hauth : requireTenant process.authenticator process.hashes credentials = .ok tenantId)
    {result : Except Exc ProcessReply} (hresult : (w.callers c).result? = some result) :
    ∃ response, result = .ok (.response response) ∧ response.status ∈ [200, 404, 409] := by
  obtain ⟨v, hv, hbehind⟩ := reachable_front h
  have hends := hbehind.ends htask hresult
  have htasks : taskIn v.log c = (process.admits (.effects credentials request)).task? := by
    rw [hbehind.tasks c, handedIn, htask]
    rfl
  simp only [HttpProcess.admits, hauth] at hends htasks
  cases request with
  | submitEffect | reconcileEffect => cases hplain
  | getReceipt e =>
    obtain ⟨answer, hm, rfl⟩ := hends
    -- the receipt is read in one step, by the handler itself
    obtain ⟨u, u', input, hu, hs, -, hread, -, -⟩ := h.at_answer hm
    have hread : answer = Broker.replayReceipt u.shared.store tenantId e := hread
    unfold Broker.replayReceipt at hread
    cases hreceipt : u.shared.store.receipt tenantId e with
    | none =>
      rw [hreceipt] at hread
      rw [hread]
      exact ⟨_, rfl, List.mem_cons_of_mem _ (List.mem_cons_self ..)⟩
    | some receipt =>
      rw [hreceipt] at hread
      rw [hread]
      exact ⟨_, rfl, List.mem_cons_self ..⟩
  | listEffects query =>
    obtain ⟨effects, hm, rfl⟩ := hends
    exact ⟨_, rfl, List.mem_cons_self ..⟩
  | getEffect | resolveEffect | cancelEffect =>
    obtain ⟨ended, hended, rfl⟩ := hends
    exact status_of_effectReply rfl (endsPlain_of_reachable hv htasks hended) fun _ => rfl

end

/-- An effect is asked for that is not there. -/
def refusedProcess : World (Sum.elim Response ReadResponse) Exc ProcessTask ProcessReply
    (Shared InMemoryStore Unit) :=
  let surroundings : Surroundings AnyAnswer :=
    ⟨sampleTime 0, [], .ok (), .error .overflowError, .error .overflowError⟩
  (httpProcess sampleProcess anyAdapters).after (World.initial (.initial sampleHashes sampleKeys ()))
    [.call 0 (.effects sampleCredentials (.getEffect (effectIdOf 1))), .answer 0 surroundings]

theorem plain_requests_are_told_sample : ∃ response,
    (refusedProcess.callers 0).result? = some (.ok (.response response)) ∧
      response.status ∈ [200, 404, 409] := by
  have hauth : requireTenant sampleProcess.authenticator sampleProcess.hashes sampleCredentials =
      .ok sampleTenant := by decide +kernel
  have hplain : EffectsRequest.isPlain (.getEffect (effectIdOf 1)) = true := rfl
  have hended : (refusedProcess.callers 0).result?.isSome = true := by decide +kernel
  obtain ⟨result, hresult⟩ := Option.isSome_iff_exists.mp hended
  obtain ⟨response, rfl, hstatus⟩ := plain_requests_are_told (System.reachableFrom_after _ _ _)
    hplain rfl hauth hresult
  exact ⟨response, hresult, hstatus⟩

end EffectBroker
