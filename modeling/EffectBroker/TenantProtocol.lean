import EffectBroker.AttemptPayload
import EffectBroker.StoreCalls

/-!
# What the procedures of a tenant may touch

Each procedure that a tenant calls asks for effects of the tenant alone, and moves, attempts
and presents to adapters none but those that it was given.  So every effect that it touches or
returns is of the tenant, whatever others do in between.
-/
namespace EffectBroker
open Python Concurrency

/-- The tenant that calls a procedure. -/
def Procedure.tenant? : Procedure → Option Str
  | .submit _ tenantId _ | .get tenantId _ | .reconcile _ tenantId _ | .cancel tenantId ..
  | .resolve tenantId .. => some tenantId
  | .dispatchOnce .. => none

/-- A procedure, and the records that it has been given. -/
structure TenantState where
  procedure : Procedure
  found : List EffectRecord := []

/-- The request is one of the tenant, on effects that were found. -/
def Request.StaysIn (tenantId : Str) (found : List EffectRecord) : Request → Prop
  | .reserve t .. | .get t _ => t = tenantId
  | .claimDue .. => False
  | .startAttempt e .. | .transition e .. => ∃ effect ∈ found, effect.effectId = e
  | .adapterFor effect | .dispatch effect _ | .probe effect => effect ∈ found
  | .clock | .record _ => True

/-- Tenants ask for effects of their own; workers ask for anything. -/
def tenantProtocol : Protocol Response Procedure TenantState where
  start procedure := { procedure }
  Allowed l r := ∀ tenantId, l.procedure.tenant? = some tenantId → r.StaysIn tenantId l.found
  Possible _ _ := True
  after l r response := { l with found := returned r response ++ l.found }

theorem Request.StaysIn.mono {tenantId : Str} {found found' : List EffectRecord} {r : Request}
    (h : r.StaysIn tenantId found) (hsub : found ⊆ found') : r.StaysIn tenantId found' := by
  cases r with
  | startAttempt | transition =>
    obtain ⟨effect, hm, hid⟩ := h
    exact ⟨effect, hsub hm, hid⟩
  | adapterFor | dispatch | probe => exact hsub h
  | _ => exact h

/-! ## Programs of a tenant -/

section
variable {tenantId : Str} {found : List EffectRecord} {α β : Type}

/-- A program of the tenant stays within what has been found; its value shows these records. -/
def Within (tenantId : Str) (found : List EffectRecord) (p : Program α)
    (shown : α → List EffectRecord) : Prop :=
  ∀ l : TenantState, l.procedure.tenant? = some tenantId → found ⊆ l.found →
    p.Follows tenantProtocol l fun l' result => l'.procedure = l.procedure ∧ l.found ⊆ l'.found ∧
      ∀ value, result = .ok value → shown value ⊆ l'.found

theorem within_pure {value : α} {shown : α → List EffectRecord} (h : shown value ⊆ found) :
    Within tenantId found (pure value) shown := by
  intro l _ hfound
  refine ⟨rfl, List.Subset.refl _, fun value' hvalue => ?_⟩
  cases hvalue
  exact List.Subset.trans h hfound

theorem within_throw {exc : Exc} {shown : α → List EffectRecord} :
    Within tenantId found (throw exc) shown := by
  intro l _ _
  exact ⟨rfl, List.Subset.refl _, fun value hvalue => by cases hvalue⟩

theorem within_ofExcept {result : Except Exc α} {shown : α → List EffectRecord}
    (h : ∀ value, result = .ok value → shown value ⊆ found) :
    Within tenantId found (Coroutine.ofExcept result) shown := by
  cases result with
  | error exc => exact within_throw
  | ok value => exact within_pure (h value rfl)

/-- The rule for one request. -/
theorem within_request {r : Request} (h : r.StaysIn tenantId found) :
    Within tenantId found (Coroutine.request r) (returned r) := by
  intro l hl hfound
  refine ⟨fun t ht => ?_, fun response _ => ⟨rfl, List.subset_append_right _ _, fun value hvalue => ?_⟩⟩
  · rw [hl] at ht
    cases ht
    exact h.mono hfound
  · cases hvalue
    exact List.subset_append_left _ _

/-- The rule for sequencing. -/
theorem Within.bind {p : Program α} {f : α → Program β} {shown : α → List EffectRecord}
    {shown' : β → List EffectRecord} (h : Within tenantId found p shown)
    (hf : ∀ value, Within tenantId (shown value ++ found) (f value) shown') :
    Within tenantId found (p >>= f) shown' := by
  intro l hl hfound
  refine Coroutine.follows_bind.mpr ((h l hl hfound).mono fun l' result hend => ?_)
  obtain ⟨hprocedure, hgrow, hshown⟩ := hend
  cases result with
  | error exc => exact ⟨hprocedure, hgrow, fun value hvalue => by cases hvalue⟩
  | ok value =>
    have hfound' : shown value ++ found ⊆ l'.found :=
      List.append_subset.mpr ⟨hshown value rfl, List.Subset.trans hfound hgrow⟩
    refine (hf value l' (hprocedure ▸ hl) hfound').mono fun l'' result hend => ?_
    exact ⟨hend.1.trans hprocedure, List.Subset.trans hgrow hend.2.1, hend.2.2⟩

/-- The rule for handlers that raise in turn. -/
theorem Within.tryCatch {p : Program α} {handler : Exc → Program α} {shown : α → List EffectRecord}
    (h : Within tenantId found p shown) (hhandler : ∀ exc, Within tenantId found (handler exc) shown) :
    Within tenantId found (MonadExcept.tryCatch p handler) shown := by
  intro l hl hfound
  refine Coroutine.follows_tryCatch.mpr ((h l hl hfound).mono fun l' result hend => ?_)
  obtain ⟨hprocedure, hgrow, hshown⟩ := hend
  cases result with
  | ok value => exact ⟨hprocedure, hgrow, hshown⟩
  | error exc =>
    refine (hhandler exc l' (hprocedure ▸ hl) (List.Subset.trans hfound hgrow)).mono
      fun l'' result hend => ?_
    exact ⟨hend.1.trans hprocedure, List.Subset.trans hgrow hend.2.1, hend.2.2⟩

end

/-! ## Requests -/

section
variable {tenantId : Str} {found : List EffectRecord} {effect : EffectRecord}

/-- What shows nothing. -/
abbrev nothing {α : Type} : α → List EffectRecord := fun _ => []

theorem within_result {α : Type} {result : Except Exc α} :
    Within tenantId found (Coroutine.ofExcept result) nothing :=
  within_ofExcept fun _ _ => List.nil_subset _

theorem within_record {metric : Metric} : Within tenantId found (Program.record metric) nothing :=
  within_request trivial

theorem within_clock : Within tenantId found Program.clock nothing := within_request trivial

theorem within_addTime {t : Datetime} {d : Timedelta} :
    Within tenantId found (Program.addTime t d) nothing := by
  unfold Program.addTime
  cases t.add d with
  | none => exact within_throw
  | some u => exact within_pure (List.nil_subset _)

theorem within_get {e : Str} :
    Within tenantId found (Program.get tenantId e) Option.toList := by
  have hasked : Within tenantId found (Coroutine.request (.get tenantId e)) (returned _) :=
    within_request rfl
  refine hasked.bind fun response => within_ofExcept fun effect? heffect => ?_
  cases effect? with
  | none => exact List.nil_subset _
  | some effect =>
    change response = .ok (some effect) at heffect
    rw [heffect]
    exact List.subset_append_left _ _

theorem within_reserve {request : EffectRequest} {contract : EffectContract} :
    Within tenantId found (Program.reserve tenantId request contract) fun reservation =>
      [reservation.effect] := by
  have hasked : Within tenantId found (Coroutine.request (.reserve tenantId request contract))
      (returned _) := within_request rfl
  refine hasked.bind fun response => within_ofExcept fun reservation heffect => ?_
  change response = .ok reservation at heffect
  rw [heffect]
  exact List.subset_append_left _ _

theorem within_transition {version : Int} {target : EffectStatus} {data : Items}
    (h : effect ∈ found) :
    Within tenantId found (Program.transition effect.effectId version target data) fun after =>
      [after] := by
  have hasked : Within tenantId found (Coroutine.request (.transition effect.effectId version target data))
      (returned _) := within_request ⟨effect, h, rfl⟩
  refine hasked.bind fun response => within_ofExcept fun after hafter => ?_
  change response = .ok after at hafter
  rw [hafter]
  exact List.subset_append_left _ _

theorem within_startAttempt {version : Int} {workerId : Str} (h : effect ∈ found) :
    Within tenantId found (Program.startAttempt effect.effectId version workerId) nothing := by
  have hasked : Within tenantId found (Coroutine.request (.startAttempt effect.effectId version workerId))
      (returned _) := within_request ⟨effect, h, rfl⟩
  exact hasked.bind fun _ => within_result

theorem within_adapterFor (h : effect ∈ found) :
    Within tenantId found (Program.adapterFor effect) nothing := by
  have hasked : Within tenantId found (Coroutine.request (.adapterFor effect)) (returned _) :=
    within_request h
  exact hasked.bind fun _ => within_result

theorem within_probe (h : effect ∈ found) : Within tenantId found (Program.probe effect) nothing := by
  have hasked : Within tenantId found (Coroutine.request (.probe effect)) (returned _) :=
    within_request h
  exact hasked.bind fun _ => within_result

/-! ## Procedures -/

theorem within_transitionAndRecord {target : EffectStatus} {data : Items} (h : effect ∈ found) :
    Within tenantId found (transitionAndRecord effect target data) fun after => [after] := by
  refine ((within_transition h).tryCatch fun exc => ?_).bind fun after => ?_
  · split
    · exact within_record.bind fun _ => within_throw
    · exact within_throw
  · exact within_record.bind fun _ => within_pure (List.subset_append_left [after] found)

theorem within_transitionCommitted {attemptId : Str} {result : DispatchReturn} (h : effect ∈ found) :
    Within tenantId found (transitionCommitted effect attemptId result) fun after => [after] := by
  refine within_result.bind fun externalId => ?_
  refine within_result.bind fun output => ?_
  exact within_transitionAndRecord h

theorem within_get_effect {e : Str} :
    Within tenantId found (Broker.get tenantId e) fun effect => [effect] := by
  refine within_get.bind fun effect? => ?_
  cases effect? with
  | none => exact within_throw
  | some effect => exact within_pure (List.subset_append_left [effect] found)

theorem within_submit {broker : Broker} {request : EffectRequest} :
    Within tenantId found (broker.submit tenantId request) fun reservation => [reservation.effect] := by
  refine within_result.bind fun contract => ?_
  refine (within_reserve.tryCatch fun exc => ?_).bind fun reservation => ?_
  · split
    · exact within_record.bind fun _ => within_throw
    · exact within_throw
  · exact within_record.bind fun _ => within_pure (List.subset_append_left [reservation.effect] found)

theorem within_cancel {e : Str} {expectedVersion : Int} {actor reason : Str} :
    Within tenantId found (Broker.cancel tenantId e expectedVersion actor reason) fun after =>
      [after] := by
  refine within_get_effect.bind fun effect => ?_
  split
  · exact within_throw
  · split
    · exact within_throw
    · refine (within_transition (List.mem_cons_self ..)).bind fun cancelled => ?_
      exact within_record.bind fun _ => within_pure (List.subset_append_left [cancelled] _)

theorem within_resolve {e : Str} {resolution : EffectStatus} {evidence : Items} :
    Within tenantId found (Broker.resolve tenantId e resolution evidence) fun after => [after] := by
  refine within_get_effect.bind fun effect => ?_
  split
  · exact within_throw
  · split
    · exact within_throw
    · exact within_transition (List.mem_cons_self ..)

theorem within_keyRetentionValid : Within tenantId found (keyRetentionValid effect) nothing := by
  unfold keyRetentionValid
  split
  · exact within_pure (List.nil_subset _)
  · refine within_clock.bind fun now => within_addTime.bind fun horizon => ?_
    exact within_pure (List.nil_subset _)

theorem within_recordRetentionRemaining :
    Within tenantId found (recordRetentionRemaining effect) nothing := by
  unfold recordRetentionRemaining
  split
  · exact within_record
  · exact within_addTime.bind fun horizon => within_clock.bind fun now => within_record

theorem within_recordRedispatch {attemptId : Str} {result : DispatchReturn} (h : effect ∈ found) :
    Within tenantId found (recordRedispatch effect attemptId result) fun after => [after] := by
  refine within_result.bind fun committed => ?_
  split
  · exact within_record.bind fun _ => within_transitionCommitted h
  · exact within_record.bind fun _ => within_transitionAndRecord h

theorem within_recordRedispatchFailure {attemptId : Str} {exc : Exc} (h : effect ∈ found) :
    Within tenantId found (recordRedispatchFailure effect attemptId exc) fun after => [after] := by
  unfold recordRedispatchFailure
  split
  · exact within_record.bind fun _ => within_transitionAndRecord h
  · exact within_record.bind fun _ => within_transitionAndRecord h

theorem within_redispatch (h : effect ∈ found) :
    Within tenantId found (redispatch effect) fun after => [after] := by
  refine within_recordRetentionRemaining.bind fun _ => within_keyRetentionValid.bind fun valid => ?_
  split
  · refine (within_transitionAndRecord h).bind fun dispatching => ?_
    have hm : dispatching ∈ [dispatching] ++ found := List.mem_cons_self ..
    refine (within_startAttempt hm).bind fun attemptId => within_record.bind fun _ => ?_
    refine (within_adapterFor hm).bind fun _ => ?_
    have hasked : Within tenantId ([dispatching] ++ found)
        (Coroutine.request (.dispatch dispatching attemptId)) (returned _) := within_request hm
    refine hasked.bind fun answer => ?_
    cases answer with
    | ok result => exact within_recordRedispatch (List.mem_append_right _ hm)
    | error exc => exact within_recordRedispatchFailure (List.mem_append_right _ hm)
  · exact within_record.bind fun _ => within_transitionAndRecord h

theorem within_recordProbe {probe : ProbeReturn} (h : effect ∈ found) :
    Within tenantId found (recordProbe effect probe) fun after => [after] := by
  refine within_result.bind fun status => within_record.bind fun _ => ?_
  split
  · refine within_result.bind fun externalId => within_result.bind fun output => ?_
    exact within_result.bind fun evidence => within_transitionAndRecord h
  · exact within_result.bind fun evidence => within_transitionAndRecord h
  · exact within_result.bind fun evidence => within_transitionAndRecord h

theorem within_probeTarget (h : effect ∈ found) :
    Within tenantId found (probeTarget effect) fun after => [after] := by
  refine (within_transitionAndRecord h).bind fun reconciling => ?_
  have hm : reconciling ∈ [reconciling] ++ found := List.mem_cons_self ..
  exact (within_adapterFor hm).bind fun _ => (within_probe hm).bind fun probe => within_recordProbe hm

theorem within_reconcile {broker : Broker} {e : Str} :
    Within tenantId found (broker.reconcile tenantId e) fun after => [after] := by
  unfold Broker.reconcile
  split
  · refine within_get_effect.bind fun effect => ?_
    have hm : effect ∈ [effect] ++ found := List.mem_cons_self ..
    unfold reconcileOnce
    split
    · exact within_redispatch hm
    · exact within_probeTarget hm
    · exact within_record.bind fun _ => within_transitionAndRecord hm
  · exact within_throw

/-- The records of a reply. -/
def Reply.records : Reply → List EffectRecord
  | .reservation made => [made.effect]
  | .effect record => [record]
  | .effects records => records

/-- What a tenant's procedure ends with has been found. -/
def EndsWithin (l : TenantState) (result : Except Exc Reply) : Prop :=
  l.procedure.tenant?.isSome → ∀ reply, result = .ok reply → reply.records ⊆ l.found

/-- Workers may ask for anything. -/
theorem follows_of_worker {α : Type} (p : Program α) (l : TenantState)
    (h : l.procedure.tenant? = none) :
    p.Follows tenantProtocol l fun l' _ => l'.procedure = l.procedure := by
  induction p generalizing l with
  | done | raised => exact rfl
  | await r resume ih =>
    refine ⟨fun tenantId ht => ?_, fun response _ => ih response _ h⟩
    rw [h] at ht
    cases ht

/-- **Every procedure stays with its tenant.** -/
theorem program_follows_tenant (procedure : Procedure) :
    procedure.program.Follows tenantProtocol (tenantProtocol.start procedure) EndsWithin := by
  have hreply : ∀ {α : Type} {p : Program α} {shown : α → List EffectRecord} {tenantId : Str}
      (f : α → Reply), (∀ value, (f value).records = shown value) →
      procedure.tenant? = some tenantId → Within tenantId [] p shown →
      (p >>= fun value => pure (f value)).Follows tenantProtocol (tenantProtocol.start procedure)
        EndsWithin := by
    intro α p shown tenantId f hf htenant h
    have hall : Within tenantId [] (p >>= fun value => pure (f value)) Reply.records :=
      h.bind fun value => within_pure (by rw [hf]; exact List.subset_append_left _ _)
    refine (hall (tenantProtocol.start procedure) htenant (List.nil_subset _)).mono ?_
    intro l result hend _
    exact hend.2.2
  cases procedure with
  | submit => exact hreply _ (fun _ => rfl) rfl within_submit
  | get => exact hreply _ (fun _ => rfl) rfl within_get_effect
  | reconcile => exact hreply _ (fun _ => rfl) rfl within_reconcile
  | cancel => exact hreply _ (fun _ => rfl) rfl within_cancel
  | resolve => exact hreply _ (fun _ => rfl) rfl within_resolve
  | dispatchOnce =>
    refine (follows_of_worker _ _ rfl).mono fun l result hl htenant => ?_
    rw [hl] at htenant
    cases htenant

end

/-! ## Runs over the in-memory store -/

namespace InMemoryStore

/-- The effect is of the tenant. -/
def OwnedBy (s : InMemoryStore) (tenantId e : Str) : Prop :=
  ∃ record, s.records.get? e = some record ∧ record.tenantId = tenantId

section
variable {s s' : InMemoryStore} {tenantId e : Str}

theorem OwnedBy.moves (h : s.OwnedBy tenantId e) (hmoves : s.Moves s') : s'.OwnedBy tenantId e := by
  obtain ⟨record, hget, htenant⟩ := h
  have hrel := hmoves e
  rw [hget] at hrel
  cases hget' : s'.records.get? e with
  | none =>
    rw [hget'] at hrel
    cases hrel
  | some after =>
    rw [hget'] at hrel
    cases hrel with
    | some hsame =>
      refine ⟨after, hget', ?_⟩
      have hafter : after.tenantId = record.tenantId := by rw [hsame]
      exact hafter.trans htenant

/-- An effect is found by its tenant alone. -/
theorem ownedBy_of_get {record : EffectRecord} (h : s.get tenantId e = some record) :
    s.records.get? e = some record ∧ record.tenantId = tenantId := by
  unfold get at h
  split at h
  · rename_i found hget
    split at h
    · rename_i htenant
      cases h
      exact ⟨hget, htenant⟩
    · cases h
  · cases h

/-- An effect is of one tenant. -/
theorem OwnedBy.unique {tenantId' : Str} (h : s.OwnedBy tenantId e) (h' : s.OwnedBy tenantId' e) :
    tenantId = tenantId' := by
  obtain ⟨record, hget, rfl⟩ := h
  obtain ⟨record', hget', rfl⟩ := h'
  rw [hget] at hget'
  cases hget'
  rfl

end
end InMemoryStore

/-- The effects that a request moves, attempts or presents. -/
def Request.touched : Request → List Str
  | .startAttempt e .. | .transition e .. => [e]
  | .adapterFor effect | .dispatch effect _ | .probe effect => [effect.effectId]
  | _ => []

/-- A caller has touched the effect. -/
def Touched (log : List BrokerEvent) (c : Nat) (e : Str) : Prop :=
  ∃ r : Request, e ∈ r.touched ∧ (.began c r ∈ log ∨ ∃ response, .answered c r response ∈ log)

section
variable {Target Decision : Type} {adapters : Adapters Target Decision}
  {shared : Shared InMemoryStore Target} {tenantId e : Str} {found : List EffectRecord} {r : Request}

/-- No request takes an effect from its tenant. -/
theorem ownedBy_serve (h : shared.store.OwnedBy tenantId e) (hkept : shared.store.Kept)
    (surroundings : Surroundings Decision) :
    (serve memoryStore adapters r surroundings shared).2.store.OwnedBy tenantId e := by
  cases hnew : newEffect? r (serve memoryStore adapters r surroundings shared).1 with
  | none => exact h.moves (moves_serve r surroundings hnew).1
  | some record =>
    cases r with
    | reserve t request contract =>
      simp only [serve, memoryStore] at hnew ⊢
      rcases shared.store.reserve_cases surroundings.now t request contract with
        ⟨exc, next, heq, -⟩ | ⟨existing, heq, -⟩ | ⟨created, heq, hid, -⟩ <;> rw [heq] at hnew ⊢
      · exact h
      · exact h
      · obtain ⟨record, hget, htenant⟩ := h
        have hunused : shared.store.records.get? created.effectId = none := hid ▸ hkept.unused le_rfl
        have hne : e ≠ created.effectId := by
          intro he
          rw [he, hunused] at hget
          cases hget
        refine ⟨record, ?_, htenant⟩
        rw [InMemoryStore.insertEffect_records, if_neg hne]
        exact hget
    | _ => cases hnew

/-- What a tenant is shown is the tenant's. -/
theorem ownedBy_returned (hkept : shared.store.Kept) (h : r.StaysIn tenantId found)
    (hfound : ∀ effect ∈ found, shared.store.OwnedBy tenantId effect.effectId)
    (surroundings : Surroundings Decision) :
    ∀ record ∈ returned r (serve memoryStore adapters r surroundings shared).1,
      (serve memoryStore adapters r surroundings shared).2.store.OwnedBy tenantId record.effectId := by
  cases r with
  | reserve t request contract =>
    obtain rfl : t = tenantId := h
    simp only [serve, memoryStore]
    rcases shared.store.reserve_cases surroundings.now t request contract with
      ⟨exc, next, heq, -⟩ | ⟨existing, heq, e, hidentity, hget⟩ | ⟨created, heq, -, htenant, -⟩ <;>
      rw [heq]
    · exact List.forall_mem_nil _
    · obtain ⟨record, hrecord, hkey⟩ := (hkept.identity _ _).mp hidentity
      rw [hget] at hrecord
      cases hrecord
      rw [← hkept.effectId e existing hget] at hget
      exact List.forall_mem_singleton.mpr ⟨existing, hget, (Prod.mk.inj hkey).1⟩
    · refine List.forall_mem_singleton.mpr ⟨created, ?_, htenant⟩
      rw [InMemoryStore.insertEffect_records, if_pos rfl]
  | claimDue => exact absurd h id
  | get t effectId =>
    obtain rfl : t = tenantId := h
    simp only [serve, memoryStore]
    cases hget : shared.store.get t effectId with
    | none => exact List.forall_mem_nil _
    | some record =>
      obtain ⟨hrecord, htenant⟩ := InMemoryStore.ownedBy_of_get hget
      rw [← hkept.effectId effectId record hrecord] at hrecord
      exact List.forall_mem_singleton.mpr ⟨record, hrecord, htenant⟩
  | transition effectId version target data =>
    obtain ⟨effect, hm, rfl⟩ := h
    have hstays : (serve memoryStore adapters (.transition effect.effectId version target data)
        surroundings shared).2.store.OwnedBy tenantId effect.effectId :=
      ownedBy_serve (hfound effect hm) hkept surroundings
    simp only [serve, memoryStore] at hstays ⊢
    rcases shared.store.transition_cases surroundings.now effect.effectId version target data with
      ⟨exc, heq, -⟩ | ⟨record, hget, -, -, heq⟩ <;> rw [heq] at hstays ⊢
    · exact List.forall_mem_nil _
    · refine List.forall_mem_singleton.mpr ?_
      have hid : record.effectId = effect.effectId := hkept.effectId _ _ hget
      show InMemoryStore.OwnedBy _ tenantId record.effectId
      rw [hid]
      exact hstays
  | _ => exact List.forall_mem_nil _

/-- What holds of tenants in every run. -/
structure TenantsHold (s : InMemoryStore) (log : List BrokerEvent) : Prop where
  kept : s.Kept
  found : ∀ c l, localOf tenantProtocol log c = some l → ∀ tenantId,
    l.procedure.tenant? = some tenantId → ∀ record ∈ l.found, s.OwnedBy tenantId record.effectId
  touched : ∀ c e, Touched log c e → ∃ l, localOf tenantProtocol log c = some l ∧ ∀ tenantId,
    l.procedure.tenant? = some tenantId → s.OwnedBy tenantId e

section
variable {hashes : Hashes} {tenantKeyProvider : TenantKeyProvider} {target : Target}
  {log : List BrokerEvent} {event : BrokerEvent} {c : Nat} {l : TenantState}

theorem Touched.cons (h : Touched (event :: log) c e) :
    Touched log c e ∨ event.caller = c ∧ ∃ r, e ∈ r.touched ∧
      (event = .began c r ∨ ∃ response, event = .answered c r response) := by
  obtain ⟨r, hr, hm | ⟨response, hm⟩⟩ := h
  · rcases List.mem_cons.mp hm with heq | hm
    · exact .inr ⟨heq ▸ rfl, r, hr, .inl heq.symm⟩
    · exact .inl ⟨r, hr, .inl hm⟩
  · rcases List.mem_cons.mp hm with heq | hm
    · exact .inr ⟨heq ▸ rfl, r, hr, .inr ⟨response, heq.symm⟩⟩
    · exact .inl ⟨r, hr, .inr ⟨response, hm⟩⟩

/-- What a request may touch has been found. -/
theorem Request.StaysIn.touched (h : r.StaysIn tenantId found) (he : e ∈ r.touched) :
    ∃ effect ∈ found, effect.effectId = e := by
  cases r with
  | startAttempt | transition =>
    obtain ⟨effect, hm, rfl⟩ := h
    exact ⟨effect, hm, (List.mem_singleton.mp he).symm⟩
  | adapterFor effect | dispatch effect | probe effect =>
    exact ⟨effect, h, (List.mem_singleton.mp he).symm⟩
  | _ => cases he

theorem tenantsHold_of_protocolRun (h : ProtocolRun (memoryBroker adapters) tenantProtocol
    (.initial hashes tenantKeyProvider target) shared log) : TenantsHold shared.store log := by
  induction h with
  | initial =>
    refine ⟨InMemoryStore.kept_initial .., fun c l hl => ?_, fun c e htouched => ?_⟩
    · cases hl
    · obtain ⟨r, -, hm | ⟨response, hm⟩⟩ := htouched <;> cases hm
  | @call s log c task hrun hnone ih =>
    refine ⟨ih.kept, fun d l hl tenantId htenant => ?_, fun d e htouched => ?_⟩
    · rw [localOf_called_eq] at hl
      by_cases hd : d = c
      · rw [hd, Function.update_self] at hl
        cases hl
        exact List.forall_mem_nil _
      · rw [Function.update_of_ne hd] at hl
        exact ih.found d l hl tenantId htenant
    · rcases htouched.cons with htouched | ⟨-, r, -, heq | ⟨response, heq⟩⟩
      · obtain ⟨l, hl, hown⟩ := ih.touched d e htouched
        have hd : d ≠ c := by
          rintro rfl
          rw [hnone] at hl
          cases hl
        rw [localOf_called_eq, Function.update_of_ne hd]
        exact ⟨l, hl, hown⟩
      · cases heq
      · cases heq
  | @begin s log c l r hrun hl hallowed hout hexternal ih =>
    refine ⟨ih.kept, ih.found, fun d e htouched => ?_⟩
    rcases htouched.cons with htouched | ⟨hd, r', he, heq | ⟨response, heq⟩⟩
    · exact ih.touched d e htouched
    · cases heq
      refine ⟨l, hl, fun tenantId htenant => ?_⟩
      obtain ⟨effect, hm, rfl⟩ := (hallowed tenantId htenant).touched he
      exact ih.found c l hl tenantId htenant effect hm
    · cases heq
  | land hrun hout ih | stop hrun ih =>
    refine ⟨ih.kept, ih.found, fun d e htouched => ?_⟩
    rcases htouched.cons with htouched | ⟨-, r, -, heq | ⟨response, heq⟩⟩
    · exact ih.touched d e htouched
    · cases heq
    · cases heq
  | disturb input hrun ih => exact ⟨ih.kept, ih.found, ih.touched⟩
  | @answer s log c l r input hrun hl hallowed hout ih =>
    have hstays : ∀ {tenantId e}, s.store.OwnedBy tenantId e →
        (serve memoryStore adapters r input s).2.store.OwnedBy tenantId e :=
      fun hown => ownedBy_serve hown ih.kept input
    refine ⟨?_, fun d l' hl' tenantId htenant record hm => ?_, fun d e htouched => ?_⟩
    · rcases serve_storeCall adapters r input s with heq | ⟨call, heq⟩
      · exact heq ▸ ih.kept
      · exact heq ▸ (InMemoryStore.serve_spec ih.kept call).1
    · rw [localOf_answered_eq tenantProtocol hl] at hl'
      by_cases hd : d = c
      · rw [hd, Function.update_self] at hl'
        cases hl'
        have htenant : l.procedure.tenant? = some tenantId := htenant
        have hfound := ih.found c l hl tenantId htenant
        rcases List.mem_append.mp hm with hm | hm
        · exact ownedBy_returned ih.kept (hallowed tenantId htenant) hfound input record hm
        · exact hstays (hfound record hm)
      · rw [Function.update_of_ne hd] at hl'
        exact hstays (ih.found d l' hl' tenantId htenant record hm)
    · rw [localOf_answered_eq tenantProtocol hl]
      by_cases hd : d = c
      · rw [hd, Function.update_self]
        refine ⟨_, rfl, fun tenantId htenant => ?_⟩
        have htenant : l.procedure.tenant? = some tenantId := htenant
        rcases htouched.cons with htouched | ⟨-, r', he, heq | ⟨response, heq⟩⟩
        · obtain ⟨l', hl', hown⟩ := ih.touched d e htouched
          rw [hd, hl] at hl'
          cases hl'
          exact hstays (hown tenantId htenant)
        · cases heq
        · cases heq
          obtain ⟨effect, hm, rfl⟩ := (hallowed tenantId htenant).touched he
          exact hstays (ih.found _ l hl tenantId htenant effect hm)
      · rw [Function.update_of_ne hd]
        rcases htouched.cons with htouched | ⟨hcaller, -⟩
        · obtain ⟨l', hl', hown⟩ := ih.touched d e htouched
          exact ⟨l', hl', fun tenantId htenant => hstays (hown tenantId htenant)⟩
        · exact absurd hcaller.symm hd

end
end
end EffectBroker
