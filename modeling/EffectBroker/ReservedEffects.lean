import EffectBroker.Coherence
import EffectBroker.LedgerStore

/-!
# What was reserved

The log says which effects were created and what the procedures have since read of them.
A store that answers from what it was given presents each effect as it was reserved, to
the callers and to the adapters.
-/
namespace EffectBroker
open Python Concurrency

/-- The effect of a tenant's operation. -/
def EffectRecord.identity (record : EffectRecord) : Str × Str :=
  (record.tenantId, record.request.operationKey)

/-- The two records are of one effect: the payload is as it was, up to `same` in the
arguments. -/
structure SamePayload (same : Value → Value → Prop) (a b : EffectRecord) : Prop where
  arguments : same a.request.arguments b.request.arguments
  others : b = { a with
    request := { a.request with arguments := b.request.arguments }
    status := b.status
    version := b.version
    updatedAt := b.updatedAt }

section
variable {same : Value → Value → Prop} {a b : EffectRecord}

theorem SamePayload.refl (hrefl : ∀ value, same value value) (a : EffectRecord) :
    SamePayload same a a := ⟨hrefl _, rfl⟩

theorem SamePayload.effectId (h : SamePayload same a b) : b.effectId = a.effectId := by
  rw [h.others]

theorem SamePayload.identity (h : SamePayload same a b) : b.identity = a.identity := by
  rw [h.others]
  rfl

theorem SamePayload.hashes (h : SamePayload same a b) :
    b.downstreamKey = a.downstreamKey ∧ b.requestHash = a.requestHash := by
  rw [h.others]
  exact ⟨rfl, rfl⟩

theorem SameEffect.samePayload (h : SameEffect a b) : SamePayload Eq a b := by
  have hrequest : b.request = a.request := by rw [h]
  refine ⟨by rw [hrequest], ?_⟩
  rw [hrequest]
  exact h

end

/-! ## Reading the log -/

/-- The new effect that a response tells of. -/
def newEffect? : (r : Request) → Response r → Option EffectRecord
  | .reserve .., (.ok reservation : Except Exc Reservation) =>
    if reservation.created then some reservation.effect else none
  | _, _ => none

/-- The effects as they were reserved, the newest first. -/
def origins : List BrokerEvent → List EffectRecord
  | [] => []
  | .answered _ r response :: log => (newEffect? r response).toList ++ origins log
  | _ :: log => origins log

/-- Some response has shown the record. -/
def Seen (log : List BrokerEvent) (record : EffectRecord) : Prop :=
  ∃ c, ∃ r : Request, ∃ response : Response r, .answered c r response ∈ log ∧
    record ∈ returned r response

/-- The record that a request hands to an adapter. -/
def Request.presented? : Request → Option EffectRecord
  | .dispatch effect _ | .probe effect => some effect
  | _ => none

/-- A call of an adapter has begun with the record. -/
def Presented (log : List BrokerEvent) (record : EffectRecord) : Prop :=
  ∃ c r, .began c r ∈ log ∧ r.presented? = some record

section
variable {log : List BrokerEvent} {event : BrokerEvent} {record : EffectRecord} {c : Nat}

theorem Seen.cons (h : Seen log record) : Seen (event :: log) record := by
  obtain ⟨c, r, response, hm, hreturned⟩ := h
  exact ⟨c, r, response, List.mem_cons_of_mem _ hm, hreturned⟩

theorem seen_answered {r : Request} {response : Response r} :
    Seen (.answered c r response :: log) record ↔ record ∈ returned r response ∨ Seen log record := by
  constructor
  · rintro ⟨d, r', response', hm, hreturned⟩
    rcases List.mem_cons.mp hm with heq | hm
    · cases heq
      exact .inl hreturned
    · exact .inr ⟨d, r', response', hm, hreturned⟩
  · rintro (hreturned | h)
    · exact ⟨c, r, response, List.mem_cons_self .., hreturned⟩
    · exact h.cons

/-- Only an answer shows a record. -/
theorem Seen.of_cons (h : Seen (event :: log) record)
    (hne : ∀ c r response, event ≠ .answered c r response) : Seen log record := by
  obtain ⟨c, r, response, hm, hreturned⟩ := h
  rcases List.mem_cons.mp hm with heq | hm
  · exact absurd heq.symm (hne c r response)
  · exact ⟨c, r, response, hm, hreturned⟩

theorem Presented.of_cons (h : Presented (event :: log) record)
    (hne : ∀ c r, event ≠ .began c r) : Presented log record := by
  obtain ⟨c, r, hm, hr⟩ := h
  rcases List.mem_cons.mp hm with heq | hm
  · exact absurd heq.symm (hne c r)
  · exact ⟨c, r, hm, hr⟩

/-- What a caller holds, it has read: each response that changes the hold shows the record. -/
theorem Hold.record_after {route : Route} {hold : Hold} {r : Request} {response : Response r}
    {effect : EffectRecord} (h : (hold.after route r response).record? = some effect) :
    effect ∈ returned r response ∨ hold.record? = some effect := by
  cases r with
  | transition effectId expectedVersion target data =>
    cases response with
    | error exc => exact .inr h
    | ok moved =>
      left
      have hmoved : (Hold.entering route moved).record? = some effect := h
      unfold Hold.entering at hmoved
      split at hmoved <;> cases hmoved <;> exact List.mem_singleton_self _
  | startAttempt effectId expectedVersion workerId =>
    right
    cases response with
    | error exc => exact h
    | ok attemptId =>
      cases hold <;> exact h
  | adapterFor | dispatch | probe =>
    right
    cases hold <;> exact h
  | _ => exact .inr h

/-- What a caller knows was shown. -/
theorem seen_of_known {l : CallerState} (h : localOf callerProtocol log c = some l) :
    (∀ effect ∈ l.known, Seen log effect) ∧
      ∀ effect, l.hold.record? = some effect → effect ∈ l.known := by
  induction log generalizing l with
  | nil => cases h
  | cons event log ih =>
    cases event with
    | called d procedure =>
      rw [localOf_called_eq] at h
      by_cases hd : c = d
      · subst hd
        rw [Function.update_self] at h
        cases h
        exact ⟨List.forall_mem_nil _, fun _ hhold => absurd hhold (Option.some_ne_none _).symm⟩
      · rw [Function.update_of_ne hd] at h
        obtain ⟨hknown, hhold⟩ := ih h
        exact ⟨fun effect hm => (hknown effect hm).cons, hhold⟩
    | answered d r response =>
      by_cases hd : c = d
      · subst hd
        rw [localOf, if_pos rfl] at h
        obtain ⟨before, hbefore, rfl⟩ := Option.map_eq_some_iff.mp h
        obtain ⟨hknown, hhold⟩ := ih hbefore
        constructor
        · intro effect hm
          rcases List.mem_append.mp hm with hm | hm
          · exact seen_answered.mpr (.inl hm)
          · exact (hknown effect hm).cons
        · intro effect hrecord
          rcases Hold.record_after hrecord with hm | hm
          · exact List.mem_append_left _ hm
          · exact List.mem_append_right _ (hhold effect hm)
      · rw [localOf, if_neg hd] at h
        obtain ⟨hknown, hhold⟩ := ih h
        exact ⟨fun effect hm => (hknown effect hm).cons, hhold⟩
    | began | landed | stopped =>
      obtain ⟨hknown, hhold⟩ := ih h
      exact ⟨fun effect hm => (hknown effect hm).cons, hhold⟩

/-- An adapter is called with the record that the caller holds. -/
theorem Allowed.presented {l : CallerState} {r : Request} (h : Allowed l r) {effect : EffectRecord}
    (hr : r.presented? = some effect) : l.hold.record? = some effect := by
  cases h with
  | call hcall =>
    generalize l.hold = hold at hcall
    unfold Hold.call? at hcall
    split at hcall <;> cases hcall <;> exact hr
  | _ => cases hr

end

/-! ## Stores that answer from what they were given -/

/-- How a store answers, that was given these originals: it creates effects of what it is
asked, with ids and identities of their own, and shows no other. -/
structure AnswersFrom (hashes : Hashes) (tenantKeyProvider : TenantKeyProvider)
    (same : Value → Value → Prop) (given : List EffectRecord) (r : Request) (response : Response r) :
    Prop where
  asked : ∀ record, newEffect? r response = some record → ∃ tenantId request contract,
    r = .reserve tenantId request contract ∧ record.tenantId = tenantId ∧ record.request = request ∧
      record.contract = contract
  fresh : ∀ record, newEffect? r response = some record → ∀ origin ∈ given,
    origin.effectId ≠ record.effectId ∧ origin.identity ≠ record.identity
  shown : ∀ record ∈ returned r response,
    (∃ origin ∈ (newEffect? r response).toList ++ given, SamePayload same origin record) ∧
      Pinned hashes tenantKeyProvider record

/-- A response without a new effect. -/
theorem AnswersFrom.of_old {hashes : Hashes} {tenantKeyProvider : TenantKeyProvider}
    {same : Value → Value → Prop} {given : List EffectRecord} {r : Request} {response : Response r}
    (hnew : newEffect? r response = none)
    (h : ∀ record ∈ returned r response, (∃ origin ∈ given, SamePayload same origin record) ∧
      Pinned hashes tenantKeyProvider record) :
    AnswersFrom hashes tenantKeyProvider same given r response := by
  refine ⟨fun record hr => ?_, fun record hr => ?_, ?_⟩
  · rw [hnew] at hr
    cases hr
  · rw [hnew] at hr
    cases hr
  · rw [hnew]
    exact h

/-- What a log says of the effects, and of the records that have been read. -/
structure Accounts (hashes : Hashes) (tenantKeyProvider : TenantKeyProvider)
    (same : Value → Value → Prop) (log : List BrokerEvent) : Prop where
  ids : ((origins log).map EffectRecord.effectId).Nodup
  identities : ((origins log).map EffectRecord.identity).Nodup
  reserved : ∀ c r (response : Response r), .answered c r response ∈ log →
    ∀ record, newEffect? r response = some record → ∃ tenantId request contract,
      r = .reserve tenantId request contract ∧ record.tenantId = tenantId ∧
        record.request = request ∧ record.contract = contract
  seen : ∀ record, Seen log record →
    (∃ origin ∈ origins log, SamePayload same origin record) ∧ Pinned hashes tenantKeyProvider record
  presented : ∀ record, Presented log record → Seen log record

section
variable {hashes : Hashes} {tenantKeyProvider : TenantKeyProvider} {same : Value → Value → Prop}
  {log : List BrokerEvent} {event : BrokerEvent} {c : Nat}

theorem accounts_nil : Accounts hashes tenantKeyProvider same [] := by
  refine ⟨List.nodup_nil, List.nodup_nil, fun _ _ _ hm => absurd hm List.not_mem_nil,
    fun record hs => ?_, fun record hp => ?_⟩
  · obtain ⟨_, _, _, hm, _⟩ := hs
    cases hm
  · obtain ⟨_, _, hm, _⟩ := hp
    cases hm

/-- What neither answers nor calls an adapter changes no account. -/
theorem Accounts.silent (h : Accounts hashes tenantKeyProvider same log)
    (hanswer : ∀ c r response, event ≠ .answered c r response)
    (hcall : ∀ record, Presented (event :: log) record → Presented log record ∨ Seen log record) :
    Accounts hashes tenantKeyProvider same (event :: log) := by
  have horigins : origins (event :: log) = origins log := by
    cases event with
    | answered c r response => exact absurd rfl (hanswer c r response)
    | _ => rfl
  refine ⟨horigins.symm ▸ h.ids, horigins.symm ▸ h.identities, fun c r response hm => ?_,
    fun record hs => ?_, fun record hp => ?_⟩
  · rcases List.mem_cons.mp hm with heq | hm
    · exact absurd heq.symm (hanswer c r response)
    · exact h.reserved c r response hm
  · rw [horigins]
    exact h.seen record (hs.of_cons hanswer)
  · rcases hcall record hp with hp | hs
    · exact (h.presented record hp).cons
    · exact hs.cons

/-- An answer that comes from what was reserved. -/
theorem Accounts.answered (h : Accounts hashes tenantKeyProvider same log) {r : Request}
    {response : Response r}
    (hanswers : AnswersFrom hashes tenantKeyProvider same (origins log) r response) :
    Accounts hashes tenantKeyProvider same (.answered c r response :: log) := by
  have hfresh : ∀ record ∈ (newEffect? r response).toList, ∀ origin ∈ origins log,
      origin.effectId ≠ record.effectId ∧ origin.identity ≠ record.identity :=
    fun record hm => hanswers.fresh record (Option.mem_toList.mp hm)
  have hone : ∀ {α : Type} (f : EffectRecord → α), ((newEffect? r response).toList.map f).Nodup := by
    intro α f
    cases newEffect? r response with
    | none => exact List.nodup_nil
    | some record => exact List.nodup_singleton _
  refine ⟨?_, ?_, fun d r' response' hm => ?_, fun record hs => ?_, fun record hp => ?_⟩
  · rw [origins, List.map_append]
    refine List.nodup_append.mpr ⟨hone _, h.ids, fun e hm e' hm' hsame => ?_⟩
    obtain ⟨record, hrecord, rfl⟩ := List.mem_map.mp hm
    obtain ⟨origin, horigin, rfl⟩ := List.mem_map.mp hm'
    exact (hfresh record hrecord origin horigin).1 hsame.symm
  · rw [origins, List.map_append]
    refine List.nodup_append.mpr ⟨hone _, h.identities, fun e hm e' hm' hsame => ?_⟩
    obtain ⟨record, hrecord, rfl⟩ := List.mem_map.mp hm
    obtain ⟨origin, horigin, rfl⟩ := List.mem_map.mp hm'
    exact (hfresh record hrecord origin horigin).2 hsame.symm
  · rcases List.mem_cons.mp hm with heq | hm
    · cases heq
      exact hanswers.asked
    · exact h.reserved d r' response' hm
  · rcases seen_answered.mp hs with hm | hs
    · exact hanswers.shown record hm
    · obtain ⟨⟨origin, hm, hsame⟩, hpinned⟩ := h.seen record hs
      exact ⟨⟨origin, List.mem_append_right _ hm, hsame⟩, hpinned⟩
  · exact (h.presented record (hp.of_cons fun _ _ heq => by cases heq)).cons

end

section
variable {Store Target Decision : Type} {store : EffectStore Store}
  {adapters : Adapters Target Decision} {init : Shared Store Target} {hashes : Hashes}
  {tenantKeyProvider : TenantKeyProvider} {same : Value → Value → Prop}
  {shared : Shared Store Target} {log : List BrokerEvent}

/-- **A store that answers from what it was given** keeps its account in every run, as long as
each effect that it is given is fit. -/
theorem accounts_of_protocolRun (Given : List EffectRecord → Store → Prop)
    (Fit : EffectRecord → Prop) (hinit : Given [] init.store)
    (hserve : ∀ {given s}, Given given s.store → ∀ r input,
      Given ((newEffect? r (serve store adapters r input s).1).toList ++ given)
        (serve store adapters r input s).2.store ∧
      ((∀ origin ∈ (newEffect? r (serve store adapters r input s).1).toList ++ given, Fit origin) →
        AnswersFrom hashes tenantKeyProvider same given r (serve store adapters r input s).1))
    (h : ProtocolRun (broker store adapters) callerProtocol init shared log) :
    Given (origins log) shared.store ∧
      ((∀ origin ∈ origins log, Fit origin) → Accounts hashes tenantKeyProvider same log) := by
  induction h with
  | initial => exact ⟨hinit, fun _ => accounts_nil⟩
  | call _ _ ih | land _ _ ih | stop _ ih =>
    refine ⟨ih.1, fun hfit => (ih.2 hfit).silent (fun _ _ _ heq => by cases heq) fun _ hp => ?_⟩
    exact .inl (hp.of_cons fun _ _ heq => by cases heq)
  | begin hrun hl hallowed _ _ ih =>
    refine ⟨ih.1, fun hfit => (ih.2 hfit).silent (fun _ _ _ heq => by cases heq) ?_⟩
    rintro record ⟨d, r, hm, hr⟩
    rcases List.mem_cons.mp hm with heq | hm
    · -- the caller holds the record that it presents, so it has read it
      cases heq
      obtain ⟨hknown, hhold⟩ := seen_of_known hl
      exact .inr (hknown record (hhold record (hallowed.presented hr)))
    · exact .inl ⟨d, r, hm, hr⟩
  | @answer s log c l r input hrun hl hallowed _ ih =>
    obtain ⟨hgiven, hanswers⟩ := hserve ih.1 r input
    refine ⟨hgiven, fun hfit => ?_⟩
    have hbefore : ∀ origin ∈ origins log, Fit origin :=
      fun origin hm => hfit origin (List.mem_append_right _ hm)
    exact (ih.2 hbefore).answered (hanswers hfit)
  | disturb _ _ ih => exact ih

end

/-! ## What a run presents -/

/-- A record that has been read, or can be. -/
def Readable {Store Target : Type} (store : EffectStore Store)
    (w : World Response Exc Procedure Reply (Shared Store Target)) (record : EffectRecord) : Prop :=
  Seen w.log record ∨ ∃ tenantId effectId, store.get w.shared.store tenantId effectId = .ok (some record)

/-- Effects are as they were submitted and reserved, once for each operation, and every attempt
carries the reserved payload and its one key. -/
structure CarriesPayload {Store Target : Type} (store : EffectStore Store) (hashes : Hashes)
    (tenantKeyProvider : TenantKeyProvider) (same : Value → Value → Prop)
    (w : World Response Exc Procedure Reply (Shared Store Target)) : Prop where
  reserved : ∀ c tenantId request contract effect replayed,
    .answered c (.reserve tenantId request contract)
      (.ok ⟨effect, true, replayed⟩ : Except Exc Reservation) ∈ w.log →
    effect.tenantId = tenantId ∧ effect.request = request ∧ effect.contract = contract
  once : ∀ origin ∈ origins w.log, ∀ origin' ∈ origins w.log,
    origin.effectId = origin'.effectId ∨ origin.identity = origin'.identity → origin = origin'
  unchanged : ∀ record, Readable store w record → ∃ origin ∈ origins w.log, SamePayload same origin record
  pinned : ∀ record, Presented w.log record → Pinned hashes tenantKeyProvider record
  attempts : ∀ record record', Presented w.log record → Presented w.log record' →
    record.identity = record'.identity → record.downstreamKey = record'.downstreamKey ∧
      record.requestHash = record'.requestHash

theorem Accounts.carriesPayload {Store Target : Type} {store : EffectStore Store} {hashes : Hashes}
    {tenantKeyProvider : TenantKeyProvider} {same : Value → Value → Prop}
    {w : World Response Exc Procedure Reply (Shared Store Target)}
    (h : Accounts hashes tenantKeyProvider same w.log)
    (hget : ∀ tenantId effectId record, store.get w.shared.store tenantId effectId = .ok (some record) →
      ∃ origin ∈ origins w.log, SamePayload same origin record) :
    CarriesPayload store hashes tenantKeyProvider same w := by
  have honce : ∀ origin ∈ origins w.log, ∀ origin' ∈ origins w.log,
      origin.effectId = origin'.effectId ∨ origin.identity = origin'.identity →
        origin = origin' := by
    rintro origin hm origin' hm' (hsame | hsame)
    · exact List.inj_on_of_nodup_map h.ids hm hm' hsame
    · exact List.inj_on_of_nodup_map h.identities hm hm' hsame
  refine ⟨fun c tenantId request contract effect replayed hm => ?_, honce, ?_,
    fun record hp => (h.seen record (h.presented record hp)).2, fun record record' hp hp' hsame => ?_⟩
  · obtain ⟨_, _, _, heq, hasked⟩ := h.reserved c _ _ hm effect rfl
    cases heq
    exact hasked
  · rintro record (hseen | ⟨tenantId, effectId, hfound⟩)
    · exact (h.seen record hseen).1
    · exact hget tenantId effectId record hfound
  · obtain ⟨⟨origin, hm, hpayload⟩, -⟩ := h.seen record (h.presented record hp)
    obtain ⟨⟨origin', hm', hpayload'⟩, -⟩ := h.seen record' (h.presented record' hp')
    have hidentity : origin.identity = origin'.identity := by
      rw [← hpayload.identity, ← hpayload'.identity, hsame]
    obtain rfl := honce origin hm origin' hm' (.inr hidentity)
    rw [hpayload.hashes.1, hpayload.hashes.2, hpayload'.hashes.1, hpayload'.hashes.2]
    exact ⟨rfl, rfl⟩

end EffectBroker
