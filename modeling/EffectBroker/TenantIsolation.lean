import EffectBroker.TenantBooks

/-!
# Tenant isolation

Two runs of a broker from one store: one with the calls of all tenants, one with the calls
of a single tenant only, who may name the effects of others where the other run has names
of nothing.  The tenant hears the same in both, up to effect ids and the clock.  The ids of
the first run depend on what others have reserved, so the effects of the tenant are matched
by their place in the tenant's book.
-/
namespace EffectBroker
open Python Concurrency

/-! ## Two runs -/

/-- The effect that a call names. -/
def TenantCall.effectId? : TenantCall → Option Str
  | .submit _ | .list .. => none
  | .get effectId | .replayReceipt effectId | .cancel effectId .. | .resolve effectId .. => some effectId

/-- The same call, with effect ids renamed. -/
inductive SameCall (ids ids' : List Str) : TenantCall → TenantCall → Prop
  | submit {request} : SameCall ids ids' (.submit request) (.submit request)
  | get {e e'} : SameEffectId ids ids' e e' → SameCall ids ids' (.get e) (.get e')
  | list {status limit offset} : SameCall ids ids' (.list status limit offset) (.list status limit offset)
  | replayReceipt {e e'} : SameEffectId ids ids' e e' →
      SameCall ids ids' (.replayReceipt e) (.replayReceipt e')
  | cancel {e e' expectedVersion actor reason} : SameEffectId ids ids' e e' →
      SameCall ids ids' (.cancel e expectedVersion actor reason) (.cancel e' expectedVersion actor reason)
  | resolve {e e' resolution evidence} : SameEffectId ids ids' e e' →
      SameCall ids ids' (.resolve e resolution evidence) (.resolve e' resolution evidence)

section
variable (pairs : List (Str × Str)) (times : Datetime → Datetime → Prop) (c c' : TenantCall)

/-- Replies to two calls that differ in effect ids and in readings of the clock only.  An
error names the effect that its own call has named. -/
inductive RenamesReply : Except Exc TenantReply → Except Exc TenantReply → Prop
  | reservation {p q : Reservation} : RenamesRecord pairs times p.effect q.effect →
      q.created = p.created → q.replayed = p.replayed →
      RenamesReply (.ok (.reservation p)) (.ok (.reservation q))
  | effect {p q} : RenamesRecord pairs times p q → RenamesReply (.ok (.effect p)) (.ok (.effect q))
  | effects {p q} : List.Forall₂ (RenamesRecord pairs times) p q →
      RenamesReply (.ok (.effects p)) (.ok (.effects q))
  | receipt {p q} : RenamesReceipt pairs times p q → RenamesReply (.ok (.receipt p)) (.ok (.receipt q))
  | error {exc} : RenamesReply (.error exc) (.error exc)
  | unknownEffect {e e'} : c.effectId? = some e → c'.effectId? = some e' →
      RenamesReply (.error (.unknownEffect e)) (.error (.unknownEffect e'))
  | versionConflict {e e' version expectedVersion} : c.effectId? = some e → c'.effectId? = some e' →
      RenamesReply (.error (.versionConflict (Broker.cancelConflict e version expectedVersion)))
        (.error (.versionConflict (Broker.cancelConflict e' version expectedVersion)))

end

/-- A call that was served, and what the tenant heard. -/
structure Heard where
  call : BrokerCall
  reply : Except Exc TenantReply

section
variable (broker : Broker) (tenantId : Str) (times : Datetime → Datetime → Prop) (init : InMemoryStore)

/-- A run of calls of all tenants, and a run from the same store without the calls of other
tenants than one.  The tenant names the same effects in both.  Logs are newest first. -/
inductive WithoutOthers : List Heard → InMemoryStore → List Heard → InMemoryStore → Prop
  | start : WithoutOthers [] init [] init
  | other {log log' s s'} {c : BrokerCall} : c.tenantId ≠ tenantId → WithoutOthers log s log' s' →
      WithoutOthers (⟨c, (broker.serve c s).1⟩ :: log) (broker.serve c s).2 log' s'
  | own {log log' s s'} {c c' : BrokerCall} : c.tenantId = tenantId → c'.tenantId = tenantId →
      SameCall (s.book.tenant tenantId).ids (s'.book.tenant tenantId).ids c.call c'.call →
      times c.now c'.now → WithoutOthers log s log' s' →
      WithoutOthers (⟨c, (broker.serve c s).1⟩ :: log) (broker.serve c s).2
        (⟨c', (broker.serve c' s').1⟩ :: log') (broker.serve c' s').2

end

/-- The effects were created one after another. -/
def InMemoryStore.Increasing (s : InMemoryStore) : Prop :=
  (s.records.values.map EffectRecord.createdAt).Pairwise (· < ·)

theorem RenamesReply.mono {pairs pairs' : List (Str × Str)} {times : Datetime → Datetime → Prop}
    {c c' : TenantCall} {x y : Except Exc TenantReply} (h : RenamesReply pairs times c c' x y)
    (hpairs : pairs ⊆ pairs') : RenamesReply pairs' times c c' x y := by
  have htimes : ∀ t t', times t t' → times t t' := fun _ _ h => h
  cases h with
  | reservation h hcreated hreplayed => exact .reservation (h.mono hpairs htimes) hcreated hreplayed
  | effect h => exact .effect (h.mono hpairs htimes)
  | effects h => exact .effects (h.imp fun _ _ h => h.mono hpairs htimes)
  | receipt h => exact .receipt (h.mono hpairs htimes)
  | error => exact .error
  | unknownEffect h h' => exact .unknownEffect h h'
  | versionConflict h h' => exact .versionConflict h h'

/-! ## One tenant, twice -/

theorem rel_slice {α β : Type} {R : α → β → Prop} {as : List α} {bs : List β}
    (h : List.Forall₂ R as bs) (start stop : Int) :
    List.Forall₂ R (slice as start stop) (slice bs start stop) := by
  unfold slice
  rw [h.length_eq]
  exact List.forall₂_drop _ (List.forall₂_take _ h)

/-- The same record, under another id and at another time. -/
theorem newRecord_again (hashes : Hashes) (tenantKeyProvider : TenantKeyProvider) (now now' : Datetime)
    (uuid uuid' tenantId : Str) (request : EffectRequest) (contract : EffectContract) :
    newRecord hashes tenantKeyProvider now' uuid' tenantId request contract =
      (newRecord hashes tenantKeyProvider now uuid tenantId request contract).map fun record =>
        { record with effectId := str "eff_" ++ uuid', createdAt := now', updatedAt := now' } := by
  unfold newRecord
  cases requestHash hashes request.tool request.arguments contract.name contract.version with
  | error exc => rfl
  | ok digest =>
    cases tenantKeyProvider tenantId with
    | error exc => rfl
    | ok tenantKey =>
      simp only [ok_bind]
      cases downstreamKey hashes tenantKey tenantId request.operationKey <;> rfl

namespace Twins
variable {times : Datetime → Datetime → Prop} {b b' : Book} {l l' : EffectLedger}

/-- A reservation is refused to twins for the same reason. -/
theorem reserve_error (h : Twins times b b') {hashes : Hashes} {tenantKeyProvider : TenantKeyProvider}
    {now now' : Datetime} {uuid uuid' tenantId : Str} {request : EffectRequest}
    {contract : EffectContract} {exc exc' : Exc}
    (hfree : str "eff_" ++ uuid ∉ b.ids)
    (hx : b.reserve hashes tenantKeyProvider now uuid tenantId request contract = .error exc)
    (hy : b'.reserve hashes tenantKeyProvider now' uuid' tenantId request contract = .error exc') :
    exc = exc' := by
  have hnone : ∀ {b : Book} {e : Str}, e ∉ b.ids → b.ledger e = none :=
    fun hnot => Book.ledger_eq_none.mpr fun l hm hid => hnot (List.mem_map.mpr ⟨l, hm, hid⟩)
  unfold Book.reserve at hx hy
  rw [newRecord_again hashes tenantKeyProvider now now' uuid uuid'] at hy
  cases hrecord : EffectBroker.newRecord hashes tenantKeyProvider now uuid tenantId request contract with
  | error failure =>
    rw [hrecord] at hx hy
    cases hx
    cases hy
    rfl
  | ok record =>
    obtain ⟨digest, tenantKey, key, -, -, -, rfl⟩ := newRecord_ok hrecord
    rw [hrecord, ok_bind] at hx
    rw [hrecord, Except.map, ok_bind] at hy
    have hreserved := h.reserved tenantId request.operationKey
    generalize b.reserved tenantId request.operationKey = found,
      b'.reserved tenantId request.operationKey = found' at hx hy hreserved
    cases hreserved with
    | none => simp [hnone hfree] at hx
    | @some l l' hat =>
      have hsame : l'.record.requestHash = l.record.requestHash := by rw [hat.1.record.same]
      simp only [hsame] at hx hy
      by_cases hconflict : l.record.requestHash ≠ digest
      · rw [if_pos hconflict] at hx hy
        cases hx
        cases hy
        rfl
      · rw [if_neg hconflict] at hx
        cases hx

/-- A move of twin ledgers. -/
theorem moveOwn (h : Twins times b b') (hat : TwinsAt times b b' l l') {now now' : Datetime}
    (hnow : times now now') (c c' : TenantCall) (target : EffectStatus) (data : Items) :
    let out := b.moveOwn l now target data
    let out' := b'.moveOwn l' now' target data
    RenamesReply (idPairs out.2 out'.2) times c c' out.1 out'.1 ∧
      List.Forall₂ (TwinLedger times) out.2 out'.2 := by
  have hpairs : idPairs (b.modify l.id (·.moved target now data))
      (b'.modify l'.id (·.moved target now' data)) = idPairs b b' :=
    idPairs_modify (fun _ => rfl) fun _ => rfl
  have hledgers := h.modify hat.2.2.2 fun _ _ hl _ _ => hl.moved hnow target data
  refine ⟨.effect ⟨(hat.1.moved hnow target data).record, ?_⟩, hledgers⟩
  rw [Book.moveOwn, Book.moveOwn, hpairs]
  exact hat.2.2.2

/-- **Two brokers of one tenant reply the same**, and their books stay twins. -/
theorem callBroker (h : Twins times b b') {hashes : Hashes} {tenantKeyProvider : TenantKeyProvider}
    (broker : Broker) {serial serial' : Str} {c c' : BrokerCall} (htenant : c'.tenantId = c.tenantId)
    (hcall : SameCall b.ids b'.ids c.call c'.call) (hnow : times c.now c'.now)
    (hfree : str "eff_" ++ serial ∉ b.ids) (hfree' : str "eff_" ++ serial' ∉ b'.ids) :
    let out := b.callBroker hashes tenantKeyProvider broker serial c
    let out' := b'.callBroker hashes tenantKeyProvider broker serial' c'
    RenamesReply (idPairs out.2 out'.2) times c.call c'.call out.1 out'.1 ∧
      List.Forall₂ (TwinLedger times) out.2 out'.2 := by
  obtain ⟨t, call, now⟩ := c
  obtain ⟨t', call', now'⟩ := c'
  obtain rfl : t' = t := htenant
  cases hcall with
  | @submit request =>
    simp only [Book.callBroker]
    cases broker.contracts.get request.tool with
    | error exc => exact ⟨.error, h.ledgers⟩
    | ok contract =>
      have hout := @Twins.reserve times b b' h hashes tenantKeyProvider now now' hnow serial serial' hfree
        hfree' t' request contract
      have herror : ∀ exc exc',
          b.reserve hashes tenantKeyProvider now serial t' request contract = .error exc →
          b'.reserve hashes tenantKeyProvider now' serial' t' request contract = .error exc' → exc = exc' :=
        fun _ _ => h.reserve_error hfree
      simp only
      generalize b.reserve hashes tenantKeyProvider now serial t' request contract = x,
        b'.reserve hashes tenantKeyProvider now' serial' t' request contract = y at hout herror ⊢
      obtain ⟨hreply, hledgers⟩ := hout
      cases x with
      | error exc =>
        cases y with
        | error exc' =>
          cases herror exc exc' rfl rfl
          exact ⟨.error, h.ledgers⟩
        | ok out' => cases hreply
      | ok out =>
        cases y with
        | error exc' => cases hreply
        | ok out' =>
          cases hreply with
          | ok hrenames =>
            cases hrenames with
            | reservation heffect hcreated hreplayed =>
              exact ⟨.reservation heffect hcreated hreplayed, hledgers⟩
  | @get e e' he =>
    have hfound := h.ledger he
    simp only [Book.callBroker]
    generalize b.ledger e = found, b'.ledger e' = found' at hfound
    cases hfound with
    | none => exact ⟨.unknownEffect rfl rfl, h.ledgers⟩
    | some hat => exact ⟨.effect (renamesRecord hat), h.ledgers⟩
  | @list status limit offset =>
    refine ⟨.effects ?_, h.ledgers⟩
    refine rel_slice ?_ _ _
    rw [h.queue.1, h.queue.2, List.forall₂_map_left_iff, List.forall₂_map_right_iff]
    refine (List.rel_filter (fun l l' hat => ?_) h.at_).imp fun _ _ hat => renamesRecord hat
    simp only [hat.1.status]
  | @replayReceipt e e' he =>
    have hfound := h.ledger he
    simp only [Book.callBroker]
    generalize b.ledger e = found, b'.ledger e' = found' at hfound
    cases hfound with
    | none => exact ⟨.unknownEffect rfl rfl, h.ledgers⟩
    | @some l l' hat =>
      have hreceipt := receipt_at hat
      simp only [Option.bind_some]
      generalize l.receipt = receipt, l'.receipt = receipt' at hreceipt
      cases hreceipt with
      | none => exact ⟨.unknownEffect rfl rfl, h.ledgers⟩
      | some hrenames => exact ⟨.receipt hrenames, h.ledgers⟩
  | @cancel e e' expectedVersion actor reason he =>
    have hfound := h.ledger he
    simp only [Book.callBroker]
    generalize b.ledger e = found, b'.ledger e' = found' at hfound
    cases hfound with
    | none => exact ⟨.unknownEffect rfl rfl, h.ledgers⟩
    | @some l l' hat =>
      simp only [hat.1.version, hat.1.status]
      by_cases hversion : (l.record.version : Int) ≠ expectedVersion
      · rw [if_pos hversion, if_pos hversion]
        exact ⟨.versionConflict rfl rfl, h.ledgers⟩
      · rw [if_neg hversion, if_neg hversion]
        by_cases hclaimable : (!l.record.status.isClaimable) = true
        · rw [if_pos hclaimable, if_pos hclaimable]
          exact ⟨.error, h.ledgers⟩
        · rw [if_neg hclaimable, if_neg hclaimable]
          exact h.moveOwn hat hnow ..
  | @resolve e e' resolution evidence he =>
    have hfound := h.ledger he
    simp only [Book.callBroker]
    generalize b.ledger e = found, b'.ledger e' = found' at hfound
    cases hfound with
    | none => exact ⟨.unknownEffect rfl rfl, h.ledgers⟩
    | @some l l' hat =>
      simp only [hat.1.status]
      by_cases hrefused : l.record.status ≠ .manualReview ∨ (!Broker.isResolution resolution) = true
      · rw [if_pos hrefused, if_pos hrefused]
        exact ⟨.error, h.ledgers⟩
      · rw [if_neg hrefused, if_neg hrefused]
        exact h.moveOwn hat hnow ..

end Twins

/-! ## What every store is -/

namespace InMemoryStore
variable {s : InMemoryStore}

/-- The events of an effect are about it. -/
def Addressed (s : InMemoryStore) : Prop :=
  ∀ l ∈ s.book, ∀ event ∈ l.events, event.effectId = l.id

theorem Addressed.serve (h : s.Addressed) (hkept : s.Kept) (c : TimedCall) :
    (InMemoryStore.serve c s).2.Addressed := by
  obtain ⟨hkept', hchange | ⟨-, effectId, record, now, hget, -, hover⟩⟩ := serve_spec hkept c
  · intro l' hm
    have hl' := hkept'.mem_book.mp hm
    have hold : ∀ l, s.ledgerOf l'.id = some l → l.id = l'.id ∧ ∀ event ∈ l.events,
        event.effectId = l'.id := by
      intro l hl
      have hid := hkept.id_of_ledgerOf hl
      rw [← hid] at hl
      exact ⟨hid, hid ▸ h l (hkept.mem_book.mpr hl)⟩
    rcases hchange l'.id with hsame | ⟨l, hl, hstep⟩
    · exact (hold l' (hsame ▸ hl')).2
    · obtain rfl := Option.some.inj (hl'.symm.trans hl)
      generalize hbefore : s.ledgerOf l'.id = before at hstep
      cases hstep with
      | reserved => exact List.forall_mem_singleton.mpr rfl
      | claimed | attempted | moved =>
        exact forall_mem_append_singleton (hold _ hbefore).2 rfl
  · -- the record has changed, and its events have not
    rw [hover]
    rw [hover] at hkept'
    intro l' hm event hevent
    obtain ⟨⟨e, after⟩, hitem, rfl⟩ := List.mem_map.mp hm
    have hafter : after.effectId = e := hkept'.effectId _ _ (Dict.get?_of_mem_items hitem)
    have hne : s.records.get? e ≠ none := by
      intro hnone
      have hget' := Dict.get?_of_mem_items hitem
      by_cases he : e = effectId
      · rw [he, hget] at hnone
        cases hnone
      · rw [overflowed, Dict.get?_set_ne _ he, hnone] at hget'
        cases hget'
    obtain ⟨before, hbefore⟩ := Option.ne_none_iff_exists'.mp hne
    have hl := ledgerOf_eq hbefore
    have hid : before.effectId = e := hkept.effectId _ _ hbefore
    show event.effectId = after.effectId
    rw [hafter, ← hid]
    exact h ⟨before, s.leases.get? e, s.attemptsOf e, s.eventsOf e⟩
      (hkept.mem_book.mpr (by rw [← hl]; exact congrArg s.ledgerOf hid)) event hevent

theorem addressed_of_run {hashes : Hashes} {tenantKeyProvider : TenantKeyProvider}
    {log : List (Served InMemoryStore)}
    (h : StoreRun InMemoryStore.serve (.initial hashes tenantKeyProvider) log s) : s.Addressed := by
  induction h with
  | start => exact fun _ hl => nomatch hl
  | call c hrun ih => exact ih.serve (pinned_of_run hrun).1 c

/-- A call of a tenant makes one call of the store, or none that changes it. -/
theorem serve_broker_cases (broker : Broker) (c : BrokerCall) (s : InMemoryStore) :
    (broker.serve c s).2 = s ∨ ∃ call, (broker.serve c s).2 = (serve call s).2 := by
  obtain ⟨t, call, now⟩ := c
  cases call with
  | submit request =>
    simp only [Broker.serve, Broker.run_submit]
    cases broker.contracts.get request.tool with
    | error exc => exact .inl rfl
    | ok contract => exact .inr ⟨⟨.reserve t request contract, now, []⟩, rfl⟩
  | get e =>
    simp only [Broker.serve, Broker.run_get]
    cases s.get t e <;> exact .inl rfl
  | list | replayReceipt => exact .inl rfl
  | cancel e expectedVersion actor reason =>
    simp only [Broker.serve, Broker.run_cancel]
    cases s.get t e with
    | none => exact .inl rfl
    | some effect =>
      simp only
      split
      · exact .inl rfl
      · split
        · exact .inl rfl
        · exact .inr ⟨⟨.transition effect.effectId expectedVersion .cancelled _, now, []⟩, rfl⟩
  | resolve e resolution evidence =>
    simp only [Broker.serve, Broker.run_resolve]
    cases s.get t e with
    | none => exact .inl rfl
    | some effect =>
      simp only
      split
      · exact .inl rfl
      · exact .inr ⟨⟨.transition effect.effectId effect.version resolution _, now, []⟩, rfl⟩

/-- Of an effect that is not the tenant's, the tenant hears that it is unknown. -/
theorem serve_unknown (h : s.Kept) (broker : Broker) {c : BrokerCall} {e : Str}
    (hnamed : c.call.effectId? = some e) (hnot : e ∉ (s.book.tenant c.tenantId).ids) :
    broker.serve c s = (.error (.unknownEffect e), s) := by
  obtain ⟨t, call, now⟩ := c
  have hledger : (s.book.tenant t).ledger e = none :=
    Book.ledger_eq_none.mpr fun l hm hid => hnot (List.mem_map.mpr ⟨l, hm, hid⟩)
  have hget : s.get t e = none := by
    rw [find_tenant h, hledger]
    rfl
  cases call with
  | submit | list => cases hnamed
  | get =>
    cases hnamed
    simp only [Broker.serve, Broker.run_get, hget]
    rfl
  | replayReceipt =>
    cases hnamed
    simp only [Broker.serve, Broker.replayReceipt, receipt, hget]
    rfl
  | cancel =>
    cases hnamed
    simp only [Broker.serve, Broker.run_cancel, hget]
    rfl
  | resolve =>
    cases hnamed
    simp only [Broker.serve, Broker.run_resolve, hget]
    rfl

/-- Effects of one tenant are left alone by the calls of others. -/
theorem ledgerOf_serve_broker (h : s.Kept) (hpinned : s.AllPinned) (broker : Broker) {c : BrokerCall}
    (h' : (broker.serve c s).2.Kept) {e : Str} {l : EffectLedger} (hl : s.ledgerOf e = some l)
    (htenant : l.record.tenantId ≠ c.tenantId) : (broker.serve c s).2.ledgerOf e = some l := by
  have hsame := (serve_broker h hpinned broker c).2.others h.unique htenant
  have hfound : (s.book.tenant l.record.tenantId).ledger e = some l := by
    rw [Book.ledger_tenant h.unique, Book.ofTenant, h.ledger_book, hl, Option.filter_some,
      if_pos (decide_eq_true rfl)]
  rw [← hsame, Book.ledger_tenant h'.unique, Book.ofTenant, h'.ledger_book] at hfound
  exact (Option.filter_eq_some_iff.mp hfound).1

/-- What was created in order stays so, and was so before. -/
theorem increasing_iff : s.Increasing ↔ (s.book.map EffectLedger.lasting).Pairwise (·.2.2 < ·.2.2) := by
  unfold Increasing
  rw [values_book, List.map_map, List.pairwise_map, List.pairwise_map]
  rfl

theorem Increasing.before {b : Book} {t : Str} (h : s.Increasing) (hstep : b.TenantStep t s.book) :
    (b.map EffectLedger.lasting).Pairwise (·.2.2 < ·.2.2) :=
  (increasing_iff.mp h).sublist hstep.lasting.sublist

theorem Increasing.sorted (h : s.Increasing) (t : Str) : (s.book.tenant t).Pairwise Book.before := by
  have hcreated := List.pairwise_map.mp (increasing_iff.mp h)
  exact (hcreated.imp fun hlt => .inl hlt).sublist List.filter_sublist

end InMemoryStore

/-! ## The two runs agree -/

/-- A store that calls have led to. -/
def Reached (hashes : Hashes) (tenantKeyProvider : TenantKeyProvider) (s : InMemoryStore) : Prop :=
  ∃ log, StoreRun InMemoryStore.serve (.initial hashes tenantKeyProvider) log s

namespace Reached
variable {hashes : Hashes} {tenantKeyProvider : TenantKeyProvider} {s : InMemoryStore}

theorem kept (h : Reached hashes tenantKeyProvider s) : s.Kept :=
  (InMemoryStore.pinned_of_run h.choose_spec).1

theorem allPinned (h : Reached hashes tenantKeyProvider s) : s.AllPinned :=
  (InMemoryStore.pinned_of_run h.choose_spec).2.1

theorem secrets (h : Reached hashes tenantKeyProvider s) :
    s.hashes = hashes ∧ s.tenantKeyProvider = tenantKeyProvider :=
  Prod.mk.inj (InMemoryStore.pinned_of_run h.choose_spec).2.2

theorem serve (h : Reached hashes tenantKeyProvider s) (broker : Broker) (c : BrokerCall) :
    Reached hashes tenantKeyProvider (broker.serve c s).2 := by
  obtain ⟨log, hrun⟩ := h
  rcases InMemoryStore.serve_broker_cases broker c s with hsame | ⟨call, hcall⟩
  · rw [hsame]
    exact ⟨log, hrun⟩
  · rw [hcall]
    exact ⟨_, hrun.call call⟩

/-- The next id is in nobody's book. -/
theorem unused (h : Reached hashes tenantKeyProvider s) (t : Str) :
    str "eff_" ++ zeroPadded 6 s.nextEffectId ∉ (s.book.tenant t).ids := by
  intro hm
  obtain ⟨l, hl, hid⟩ := List.mem_map.mp hm
  exact h.kept.next_not_mem (List.mem_map.mpr ⟨l, (Book.mem_tenant.mp hl).1, hid⟩)

end Reached

section
variable {broker : Broker} {tenantId : Str} {times : Datetime → Datetime → Prop}
  {init s s' : InMemoryStore} {log log' : List Heard} {hashes : Hashes}
  {tenantKeyProvider : TenantKeyProvider}

theorem WithoutOthers.reached (h : WithoutOthers broker tenantId times init log s log' s')
    (hinit : Reached hashes tenantKeyProvider init) :
    Reached hashes tenantKeyProvider s ∧ Reached hashes tenantKeyProvider s' := by
  induction h with
  | start => exact ⟨hinit, hinit⟩
  | other _ _ ih => exact ⟨ih.1.serve broker _, ih.2⟩
  | own _ _ _ _ _ ih => exact ⟨ih.1.serve broker _, ih.2.serve broker _⟩

/-- A store is its own twin. -/
theorem InMemoryStore.Addressed.twins (h : s.Addressed) (hrefl : ∀ now, times now now) (t : Str) :
    List.Forall₂ (TwinLedger times) (s.book.tenant t) (s.book.tenant t) := by
  refine List.forall₂_same.mpr fun l hl => ⟨⟨rfl, hrefl _, hrefl _⟩, rfl, rfl, ?_⟩
  refine List.forall₂_same.mpr fun event hevent => ?_
  have hid := h l (Book.mem_tenant.mp hl).1 event hevent
  exact ⟨rfl, ⟨hid, hid⟩, hrefl _, .inl rfl⟩

/-- The tenant's books are twins, and the replies were the same. -/
structure TenantTwins (tenantId : Str) (times : Datetime → Datetime → Prop) (log : List Heard)
    (s : InMemoryStore) (log' : List Heard) (s' : InMemoryStore) : Prop where
  twins : Twins times (s.book.tenant tenantId) (s'.book.tenant tenantId)
  replies : List.Forall₂ (fun x x' => RenamesReply
      (idPairs (s.book.tenant tenantId) (s'.book.tenant tenantId)) times x.call.call x'.call.call x.reply
        x'.reply) (log.filter (·.call.tenantId = tenantId)) log'

/-- Other tenants do not disturb a tenant. -/
theorem TenantTwins.other (h : TenantTwins tenantId times log s log' s')
    (hs : Reached hashes tenantKeyProvider s) {c : BrokerCall} (hc : c.tenantId ≠ tenantId) :
    TenantTwins tenantId times (⟨c, (broker.serve c s).1⟩ :: log) (broker.serve c s).2 log' s' := by
  have hsame := (InMemoryStore.serve_broker hs.kept hs.allPinned broker c).2.others hs.kept.unique hc.symm
  constructor
  · rw [hsame]
    exact h.twins
  · rw [hsame, List.filter_cons_of_neg (by simpa using hc)]
    exact h.replies

/-- What the tenant does itself comes out the same. -/
theorem TenantTwins.own (h : TenantTwins tenantId times log s log' s')
    (hs : Reached hashes tenantKeyProvider s) (hs' : Reached hashes tenantKeyProvider s') {c c' : BrokerCall}
    (hc : c.tenantId = tenantId) (hc' : c'.tenantId = tenantId)
    (hcall : SameCall (s.book.tenant tenantId).ids (s'.book.tenant tenantId).ids c.call c'.call)
    (hnow : times c.now c'.now) (hincr : (broker.serve c s).2.Increasing)
    (hincr' : (broker.serve c' s').2.Increasing) :
    TenantTwins tenantId times (⟨c, (broker.serve c s).1⟩ :: log) (broker.serve c s).2
      (⟨c', (broker.serve c' s').1⟩ :: log') (broker.serve c' s').2 := by
  subst hc
  obtain ⟨hserve, hstep⟩ := InMemoryStore.serve_broker hs.kept hs.allPinned broker c
  obtain ⟨hserve', hstep'⟩ := InMemoryStore.serve_broker hs'.kept hs'.allPinned broker c'
  rw [hc'] at hserve' hstep'
  rw [hs.secrets.1, hs.secrets.2] at hserve
  rw [hs'.secrets.1, hs'.secrets.2] at hserve'
  obtain ⟨hreply, hledgers⟩ := @Twins.callBroker times _ _ h.twins hashes tenantKeyProvider broker _ _ c c'
    hc' hcall hnow (hs.unused _) (hs'.unused _)
  rw [← hserve, ← hserve'] at hreply hledgers
  have hkept := (hs.serve broker c).kept
  have hkept' := (hs'.serve broker c').kept
  refine ⟨⟨hledgers, hkept.unique.tenant _, hkept'.unique.tenant _, hincr.sorted _, hincr'.sorted _⟩, ?_⟩
  rw [List.filter_cons_of_pos (by simp)]
  have hpairs := idPairs_subset h.twins.length (hstep.ids_tenant c.tenantId) (hstep'.ids_tenant c.tenantId)
  exact .cons hreply (h.replies.imp fun x x' hsame => hsame.mono hpairs)

theorem WithoutOthers.tenantTwins (h : WithoutOthers broker tenantId times init log s log' s')
    (hinit : Reached hashes tenantKeyProvider init) (hrefl : ∀ now, times now now) (hincr : s.Increasing)
    (hincr' : s'.Increasing) : TenantTwins tenantId times log s log' s' := by
  induction h with
  | start =>
    have hkept := hinit.kept
    have haddressed := InMemoryStore.addressed_of_run hinit.choose_spec
    exact ⟨⟨haddressed.twins hrefl _, hkept.unique.tenant _, hkept.unique.tenant _, hincr.sorted _,
      hincr.sorted _⟩, .nil⟩
  | @other log log' s s' c hc hrun ih =>
    have hs := (hrun.reached hinit).1
    have hstep := (InMemoryStore.serve_broker hs.kept hs.allPinned broker c).2
    exact (ih (InMemoryStore.increasing_iff.mpr (hincr.before hstep)) hincr').other hs hc
  | @own log log' s s' c c' hc hc' hcall hnow hrun ih =>
    obtain ⟨hs, hs'⟩ := hrun.reached hinit
    have hstep := (InMemoryStore.serve_broker hs.kept hs.allPinned broker c).2
    have hstep' := (InMemoryStore.serve_broker hs'.kept hs'.allPinned broker c').2
    exact (ih (InMemoryStore.increasing_iff.mpr (hincr.before hstep))
      (InMemoryStore.increasing_iff.mpr (hincr'.before hstep'))).own hs hs' hc hc' hcall hnow hincr hincr'

/-- **Tenants are isolated.**  Up to effect ids and the clock, a tenant hears in any run what
it hears without the calls of other tenants, of effects that are not its own it hears that
they are unknown, and no call touches an effect of another tenant. -/
theorem tenant_isolation {calls : List (Served InMemoryStore)}
    (hstart : StoreRun InMemoryStore.serve (.initial hashes tenantKeyProvider) calls init)
    (hrun : WithoutOthers broker tenantId times init log s log' s') (hrefl : ∀ now, times now now)
    (hincr : s.Increasing) (hincr' : s'.Increasing) :
    let pairs := idPairs (s.book.tenant tenantId) (s'.book.tenant tenantId)
    (Relator.BiUnique fun e e' => (e, e') ∈ pairs) ∧
      List.Forall₂ (fun x x' => RenamesReply pairs times x.call.call x'.call.call x.reply x'.reply)
        (log.filter (·.call.tenantId = tenantId)) log' ∧
      (∀ (c : BrokerCall) e, c.call.effectId? = some e → e ∉ (s.book.tenant c.tenantId).ids →
        broker.serve c s = (.error (.unknownEffect e), s)) ∧
      ∀ (c : BrokerCall) e record, s.records.get? e = some record → record.tenantId ≠ c.tenantId →
        let after := (broker.serve c s).2
        after.records.get? e = some record ∧ after.leases.get? e = s.leases.get? e ∧
          after.attemptsOf e = s.attemptsOf e ∧ after.eventsOf e = s.eventsOf e := by
  have hinit : Reached hashes tenantKeyProvider init := ⟨calls, hstart⟩
  have hs := (hrun.reached hinit).1
  have hsame := hrun.tenantTwins hinit hrefl hincr hincr'
  refine ⟨hsame.twins.biUnique, hsame.replies, ?_, ?_⟩
  · intro c e hnamed hnot
    exact InMemoryStore.serve_unknown hs.kept broker hnamed hnot
  · intro c e record hget htenant
    have hl := InMemoryStore.ledgerOf_serve_broker hs.kept hs.allPinned broker (hs.serve broker c).kept
      (InMemoryStore.ledgerOf_eq hget) htenant
    obtain ⟨after, hafter, hledger⟩ := Option.map_eq_some_iff.mp hl
    obtain ⟨rfl, hlease, hattempts, hevents⟩ := EffectLedger.mk.inj hledger
    exact ⟨hafter, hlease, hattempts, hevents⟩

end

/-! ## Two tenants with one operation key -/

instance (ids ids' : List Str) (e e' : Str) : Decidable (SameEffectId ids ids' e e') :=
  inferInstanceAs (Decidable ((e, e') ∈ ids.zip ids' ∨ e ∉ ids ∧ e' ∉ ids'))

instance (s : InMemoryStore) : Decidable s.Increasing :=
  inferInstanceAs (Decidable ((s.records.values.map EffectRecord.createdAt).Pairwise (· < ·)))

/-- `submit` at some day. -/
def submitCall (tenantId : Str) (day : Fin 100) : BrokerCall :=
  ⟨tenantId, .submit sampleRequest, sampleTime day⟩

/-- `get` of the effect with some number. -/
def getCall (number : Nat) : BrokerCall := ⟨sampleTenant, .get (effectIdOf number), sampleTime 2⟩

/-- `cancel` of the effect with some number. -/
def cancelCall (number : Nat) : BrokerCall :=
  ⟨sampleTenant, .cancel (effectIdOf number) 0 (str "agent") (str "typo"), sampleTime 3⟩

/-- The tenant looks up the effect of another tenant, which is its own first effect when it
is alone, and cancels its own. -/
theorem tenant_isolation_sample :
    let broker := sampleBroker (sampleContract .idempotent 0)
    let other := broker.serve (submitCall (str "umbrella") 0) (.initial sampleHashes sampleKeys)
    let submitted := broker.serve (submitCall sampleTenant 1) other.2
    let found := broker.serve (getCall 1) submitted.2
    let cancelled := broker.serve (cancelCall 2) found.2
    let alone := broker.serve (submitCall sampleTenant 1) (.initial sampleHashes sampleKeys)
    let missing := broker.serve (getCall 7) alone.2
    let cancelledAlone := broker.serve (cancelCall 1) missing.2
    let pairs := idPairs (cancelled.2.book.tenant sampleTenant) (cancelledAlone.2.book.tenant sampleTenant)
    pairs = [(effectIdOf 2, effectIdOf 1)] ∧
      List.Forall₂ (fun (x x' : Heard) => RenamesReply pairs Eq x.call.call x'.call.call x.reply x'.reply)
        [⟨cancelCall 2, cancelled.1⟩, ⟨getCall 1, found.1⟩, ⟨submitCall sampleTenant 1, submitted.1⟩]
        [⟨cancelCall 1, cancelledAlone.1⟩, ⟨getCall 7, missing.1⟩,
          ⟨submitCall sampleTenant 1, alone.1⟩] := by
  intro broker other submitted found cancelled alone missing cancelledAlone pairs
  have hown : SameEffectId (found.2.book.tenant sampleTenant).ids (missing.2.book.tenant sampleTenant).ids
      (effectIdOf 2) (effectIdOf 1) := by decide +kernel
  have hunknown : SameEffectId (submitted.2.book.tenant sampleTenant).ids
      (alone.2.book.tenant sampleTenant).ids (effectIdOf 1) (effectIdOf 7) := by decide +kernel
  have hrun : WithoutOthers broker sampleTenant Eq (.initial sampleHashes sampleKeys) _ cancelled.2 _
      cancelledAlone.2 :=
    .own rfl rfl (.cancel hown) rfl (.own rfl rfl (.get hunknown) rfl
      (.own rfl rfl .submit rfl (.other (c := submitCall (str "umbrella") 0) (by decide) .start)))
  exact ⟨by decide +kernel,
    (tenant_isolation .start hrun (fun _ => rfl) (by decide +kernel) (by decide +kernel)).2.1⟩

end EffectBroker
