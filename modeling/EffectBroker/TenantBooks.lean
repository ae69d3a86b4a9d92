import EffectBroker.BrokerCalls
import EffectBroker.MemoryBook
import EffectBroker.TwinBooks

/-!
# A broker for each tenant

What tenants ought to see: each has a broker of its own, whose book has its own effects
only.  The in-memory broker is compared with these.  A call is served as the broker of its
tenant serves it, and the books of the other tenants stay as they were.
-/
namespace EffectBroker
open Python Concurrency

/-- What no call changes about an effect: its id, its tenant, and when it was created. -/
def EffectLedger.lasting (l : EffectLedger) : Str × Str × Datetime :=
  (l.id, l.record.tenantId, l.record.createdAt)

namespace Book
variable {b : Book} {e t u : Str}

/-- The ledgers of a tenant's effects. -/
def tenant (b : Book) (tenantId : Str) : Book := b.filter (·.record.tenantId = tenantId)

theorem mem_tenant {l : EffectLedger} : l ∈ b.tenant t ↔ l ∈ b ∧ l.record.tenantId = t := by
  unfold tenant
  rw [List.mem_filter, decide_eq_true_iff]

theorem Unique.tenant (h : b.Unique) (t : Str) : (b.tenant t).Unique :=
  ⟨h.ids.sublist (List.filter_sublist.map _), h.identities.sublist (List.filter_sublist.map _)⟩

/-- The book of a tenant has the tenant's effects. -/
theorem ledger_tenant (h : b.Unique) (t e : Str) : (b.tenant t).ledger e = b.ofTenant t e := by
  unfold ofTenant
  cases hl : b.ledger e with
  | none =>
    have hnot := ledger_eq_none.mp hl
    exact ledger_eq_none.mpr fun l hm => hnot l (mem_tenant.mp hm).1
  | some l =>
    obtain ⟨hm, rfl⟩ := mem_of_ledger hl
    rw [Option.filter_some]
    by_cases htenant : l.record.tenantId = t
    · rw [if_pos (decide_eq_true htenant)]
      exact (h.tenant t).ledger_of_mem (mem_tenant.mpr ⟨hm, htenant⟩)
    · rw [if_neg (by simpa using htenant)]
      refine ledger_eq_none.mpr fun l' hm' hid => htenant ?_
      obtain ⟨hb', htenant'⟩ := mem_tenant.mp hm'
      rw [List.inj_on_of_nodup_map h.ids hm hb' hid.symm, htenant']

/-- The book of a tenant has the tenant's operations. -/
theorem reserved_tenant (b : Book) (t operationKey : Str) :
    (b.tenant t).reserved t operationKey = b.reserved t operationKey := by
  unfold reserved tenant
  rw [List.find?_filter]
  congr 1
  funext l
  by_cases h : l.record.tenantId = t
  · simp [EffectLedger.identity, h]
  · simp [EffectLedger.identity, h]

theorem modify_of_not_mem {f : EffectLedger → EffectLedger} (h : ∀ l ∈ b, l.id ≠ e) :
    b.modify e f = b := by
  unfold modify
  refine (List.map_congr_left fun l hm => ?_).trans (List.map_id b)
  exact if_neg (h l hm)

theorem tenant_modify {f : EffectLedger → EffectLedger}
    (hf : ∀ l, (f l).record.tenantId = l.record.tenantId) :
    (b.modify e f).tenant t = (b.tenant t).modify e f := by
  unfold tenant modify
  rw [List.filter_map]
  congr 2
  funext l
  show decide ((if l.id = e then f l else l).record.tenantId = t) = _
  split
  · rw [hf]
  · rfl

/-- A change of an effect leaves the books of other tenants alone. -/
theorem tenant_modify_of_ne {f : EffectLedger → EffectLedger} (h : b.Unique)
    (hf : ∀ l, (f l).record.tenantId = l.record.tenantId) {l : EffectLedger}
    (hl : b.ledger e = some l) (hne : l.record.tenantId ≠ u) :
    (b.modify e f).tenant u = b.tenant u := by
  rw [tenant_modify hf]
  refine modify_of_not_mem fun l' hm hid => hne ?_
  obtain ⟨hm', rfl⟩ := mem_tenant.mp hm
  obtain ⟨hm, hid'⟩ := mem_of_ledger hl
  rw [List.inj_on_of_nodup_map h.ids hm hm' (hid'.trans hid.symm)]

theorem tenant_append {l : EffectLedger} (t : Str) :
    Book.tenant (b ++ [l]) t = if l.record.tenantId = t then b.tenant t ++ [l] else b.tenant t := by
  unfold tenant
  rw [List.filter_append, List.filter_singleton]
  by_cases h : l.record.tenantId = t <;> simp [h]

/-! ## The broker of one tenant -/

/-- The outcome of a move. -/
def moveOwn (b : Book) (l : EffectLedger) (now : Datetime) (target : EffectStatus) (data : Items) :
    Except Exc TenantReply × Book :=
  (.ok (.effect (movedRecord l.record target now)), b.modify l.id (·.moved target now data))

/-- Serve a call from the tenant's own book.  `serial` is what a new id ends with. -/
def callBroker (b : Book) (hashes : Hashes) (tenantKeyProvider : TenantKeyProvider) (broker : Broker)
    (serial : Str) (c : BrokerCall) : Except Exc TenantReply × Book :=
  match c.call with
  | .submit request =>
    match broker.contracts.get request.tool with
    | .error exc => (.error exc, b)
    | .ok contract =>
      match b.reserve hashes tenantKeyProvider c.now serial c.tenantId request contract with
      | .error exc => (.error exc, b)
      | .ok (reservation, b') => (.ok (.reservation reservation), b')
  | .get effectId =>
    match b.ledger effectId with
    | none => (.error (.unknownEffect effectId), b)
    | some l => (.ok (.effect l.record), b)
  | .list status limit offset =>
    let ledgers := b.queue.filter fun l => status.all fun status => l.record.status = status
    (.ok (.effects (slice (ledgers.map EffectLedger.record) offset (offset + limit))), b)
  | .replayReceipt effectId =>
    match (b.ledger effectId).bind EffectLedger.receipt with
    | none => (.error (.unknownEffect effectId), b)
    | some receipt => (.ok (.receipt receipt), b)
  | .cancel effectId expectedVersion actor reason =>
    match b.ledger effectId with
    | none => (.error (.unknownEffect effectId), b)
    | some l =>
      if (l.record.version : Int) ≠ expectedVersion then
        (.error (.versionConflict (Broker.cancelConflict effectId l.record.version expectedVersion)), b)
      else if !l.record.status.isClaimable then
        (.error (.invalidTransition l.record.status .cancelled), b)
      else b.moveOwn l c.now .cancelled [(text "actor", .str actor), (text "reason", .str reason)]
  | .resolve effectId resolution evidence =>
    match b.ledger effectId with
    | none => (.error (.unknownEffect effectId), b)
    | some l =>
      if l.record.status ≠ .manualReview ∨ !Broker.isResolution resolution then
        (.error (.invalidTransition l.record.status resolution), b)
      else b.moveOwn l c.now resolution
        [(text "evidence", .dict evidence), (text "actor", text "operator")]

/-- What a tenant's call does to the book: nothing, or it adds an effect of the tenant, or
moves one. -/
inductive TenantStep (b : Book) (tenantId : Str) : Book → Prop
  | same : TenantStep b tenantId b
  | reserved {record : EffectRecord} : record.tenantId = tenantId →
      b.ledger record.effectId = none → TenantStep b tenantId (b ++ [.reserved record])
  | moved {l : EffectLedger} {target : EffectStatus} {now : Datetime} {data : Items} :
      b.ledger l.id = some l → l.record.tenantId = tenantId →
      TenantStep b tenantId (b.modify l.id (·.moved target now data))

namespace TenantStep
variable {b' : Book}

/-- The effects of other tenants stay as they were. -/
theorem others (h : TenantStep b t b') (hb : b.Unique) (hu : u ≠ t) : b'.tenant u = b.tenant u := by
  cases h with
  | same => rfl
  | reserved htenant =>
    rw [tenant_append, if_neg]
    exact fun h => hu (h.symm.trans htenant)
  | moved hl htenant => exact tenant_modify_of_ne hb (fun _ => rfl) hl fun h => hu (h.symm.trans htenant)

/-- The effects stay, in the order in which they were created. -/
theorem lasting (h : TenantStep b t b') : b.map EffectLedger.lasting <+: b'.map EffectLedger.lasting := by
  cases h with
  | same => exact List.prefix_rfl
  | reserved =>
    rw [List.map_append]
    exact List.prefix_append ..
  | @moved l target now data =>
    have hsame : (b.modify l.id (·.moved target now data)).map EffectLedger.lasting =
        b.map EffectLedger.lasting := by
      unfold modify
      rw [List.map_map]
      refine List.map_congr_left fun l' _ => ?_
      rw [Function.comp_apply]
      split <;> rfl
    exact hsame.symm ▸ List.prefix_rfl

/-- A tenant's effects stay in their places. -/
theorem ids_tenant (h : TenantStep b t b') (u : Str) : (b.tenant u).ids <+: (b'.tenant u).ids := by
  have hids : ∀ b : Book, (b.tenant u).ids =
      ((b.map EffectLedger.lasting).filter (·.2.1 = u)).map Prod.fst := by
    intro b
    unfold tenant ids
    rw [List.filter_map, List.map_map]
    rfl
  rw [hids, hids]
  exact (h.lasting.filter _).map _

end TenantStep

/-- A reservation asks for nothing but the tenant's own operations. -/
theorem reserve_tenant {hashes : Hashes} {tenantKeyProvider : TenantKeyProvider} {now : Datetime}
    {serial : Str} {request : EffectRequest} {contract : EffectContract} (hb : b.Unique)
    (hfree : b.ledger (str "eff_" ++ serial) = none) :
    (b.tenant t).reserve hashes tenantKeyProvider now serial t request contract =
        (b.reserve hashes tenantKeyProvider now serial t request contract).map
          (fun out => (out.1, out.2.tenant t)) ∧
      ∀ out, b.reserve hashes tenantKeyProvider now serial t request contract = .ok out →
        TenantStep b t out.2 := by
  unfold reserve
  rw [reserved_tenant]
  cases hrecord : newRecord hashes tenantKeyProvider now serial t request contract with
  | error exc => exact ⟨rfl, fun _ h => nomatch h⟩
  | ok record =>
    obtain ⟨digest, tenantKey, key, -, -, -, rfl⟩ := newRecord_ok hrecord
    simp only [ok_bind]
    cases b.reserved t request.operationKey with
    | some l =>
      simp only
      split
      · exact ⟨rfl, fun _ h => nomatch h⟩
      · refine ⟨rfl, fun out h => ?_⟩
        cases h
        exact .same
    | none =>
      have hfree' : (b.tenant t).ledger (str "eff_" ++ serial) = none := by
        rw [ledger_tenant hb, ofTenant, hfree]
        rfl
      simp only [hfree, hfree', Option.isSome_none, Bool.false_eq_true, if_false]
      refine ⟨congrArg Except.ok (Prod.ext rfl ?_), fun out h => ?_⟩
      · exact ((tenant_append t).trans (if_pos rfl)).symm
      · cases h
        exact .reserved rfl hfree

/-- A move of an effect at its version along an edge. -/
theorem transition_eq {l : EffectLedger} (hl : b.ledger e = some l) {expectedVersion : Int}
    (hversion : (l.record.version : Int) = expectedVersion) {target : EffectStatus}
    (hallowed : isAllowed l.record.status target = true) (now : Datetime) (data : Items) :
    b.transition now e expectedVersion target data =
      .ok (movedRecord l.record target now, b.modify e (·.moved target now data)) := by
  unfold transition
  rw [current_ok.mpr ⟨hl, hversion⟩, ok_bind, assertTransition_ok.mpr hallowed]
  rfl

end Book

/-! ## The in-memory broker -/

namespace InMemoryStore
variable {s : InMemoryStore}

/-- What a tenant finds is in the tenant's book. -/
theorem find_tenant (h : s.Kept) (t e : Str) :
    s.get t e = ((s.book.tenant t).ledger e).map EffectLedger.record := by
  rw [find_book h, Book.ledger_tenant h.unique]

theorem list_tenant (h : s.Kept) (t : Str) (status : Option EffectStatus) (limit offset : Int) :
    s.list t status limit offset = slice (((s.book.tenant t).queue.filter fun l =>
      status.all fun status => l.record.status = status).map EffectLedger.record) offset
        (offset + limit) := by
  have hsort : ∀ b : Book, (b.map EffectLedger.record).insertionSort listedBefore =
      b.queue.map EffectLedger.record := fun b =>
    (List.map_insertionSort Book.before listedBefore EffectLedger.record b
      fun _ _ _ _ => Iff.rfl).symm
  unfold list
  simp only
  rw [values_book, List.filter_map, hsort, Book.filter_queue (h.unique.tenant t), Book.tenant,
    List.filter_filter]
  congr 4
  funext l
  exact Bool.and_comm _ _

/-- A move of a tenant's own effect. -/
theorem transition_tenant (h : s.Kept) {t : Str} {l : EffectLedger}
    (hl : (s.book.tenant t).ledger l.id = some l) {expectedVersion : Int}
    (hversion : (l.record.version : Int) = expectedVersion) {target : EffectStatus}
    (hallowed : isAllowed l.record.status target = true) (now : Datetime) (data : Items) :
    let out := s.transition now l.id expectedVersion target data
    (out.1.map TenantReply.effect, out.2.book.tenant t) =
        (s.book.tenant t).moveOwn l now target data ∧
      s.book.TenantStep t out.2.book := by
  intro out
  obtain ⟨hfound, htenant⟩ := Option.filter_eq_some_iff.mp
    ((Book.ledger_tenant h.unique t l.id).symm.trans hl)
  have hbook : (out.1.map StoreValue.effect, out.2.book) = _ := transition_book h now l.id
    expectedVersion target data
  rw [Book.transition_eq hfound hversion hallowed] at hbook
  obtain ⟨hreply, hafter⟩ := Prod.mk.inj hbook
  have hok : out.1 = .ok (movedRecord l.record target now) := by
    cases hout : out.1 with
    | error exc =>
      rw [hout] at hreply
      cases hreply
    | ok after =>
      rw [hout] at hreply
      cases hreply
      rfl
  rw [hok, hafter]
  refine ⟨Prod.ext rfl (Book.tenant_modify fun _ => rfl), .moved hfound ?_⟩
  exact of_decide_eq_true htenant

/-- **A call is served as the tenant's own broker serves it**, and does nothing else. -/
theorem serve_broker (h : s.Kept) (hpinned : s.AllPinned) (broker : Broker) (c : BrokerCall) :
    let out := broker.serve c s
    (out.1, out.2.book.tenant c.tenantId) = (s.book.tenant c.tenantId).callBroker s.hashes
        s.tenantKeyProvider broker (zeroPadded 6 s.nextEffectId) c ∧
      s.book.TenantStep c.tenantId out.2.book := by
  obtain ⟨t, call, now⟩ := c
  cases call with
  | submit request =>
    simp only [Broker.serve, Broker.run_submit, Book.callBroker]
    cases broker.contracts.get request.tool with
    | error exc => exact ⟨rfl, .same⟩
    | ok contract =>
      have hfree : s.book.ledger (str "eff_" ++ zeroPadded 6 s.nextEffectId) = none := by
        rw [h.ledger_book]
        exact ledgerOf_none (h.unused le_rfl)
      have hbook := reserve_book h hpinned now t request contract
      obtain ⟨hown, hstep⟩ := @Book.reserve_tenant s.book t s.hashes s.tenantKeyProvider now _ request
        contract h.unique hfree
      simp only [hown]
      generalize s.book.reserve s.hashes s.tenantKeyProvider now (zeroPadded 6 s.nextEffectId) t request
        contract = result at hbook hstep
      obtain ⟨hreply, hafter⟩ := Prod.mk.inj hbook
      generalize s.reserve now t request contract = out at hreply hafter
      obtain ⟨reply, s'⟩ := out
      cases result with
      | error exc =>
        cases reply <;> cases hreply
        exact ⟨Prod.ext rfl (congrArg (Book.tenant · t) hafter), hafter ▸ .same⟩
      | ok out =>
        cases reply <;> cases hreply
        exact ⟨Prod.ext rfl (congrArg (Book.tenant · t) hafter), hafter ▸ hstep out rfl⟩
  | get e =>
    simp only [Broker.serve, Broker.run_get, Book.callBroker, find_tenant h]
    cases (s.book.tenant t).ledger e <;> exact ⟨rfl, .same⟩
  | list status limit offset =>
    refine ⟨?_, .same⟩
    simp only [Broker.serve, Broker.list, Book.callBroker, list_tenant h]
  | replayReceipt e =>
    simp only [Broker.serve, Broker.replayReceipt, Book.callBroker, receipt_book h,
      Book.ledger_tenant h.unique]
    cases (s.book.ofTenant t e).bind EffectLedger.receipt with
    | none => exact ⟨rfl, .same⟩
    | some receipt => exact ⟨rfl, .same⟩
  | cancel e expectedVersion actor reason =>
    simp only [Broker.serve, Broker.run_cancel, Book.callBroker, find_tenant h]
    cases hl : (s.book.tenant t).ledger e with
    | none => exact ⟨rfl, .same⟩
    | some l =>
      obtain ⟨-, rfl⟩ := Book.mem_of_ledger hl
      simp only [Option.map_some]
      by_cases hversion : (l.record.version : Int) ≠ expectedVersion
      · rw [if_pos hversion, if_pos hversion]
        exact ⟨rfl, .same⟩
      · rw [if_neg hversion, if_neg hversion]
        by_cases hclaimable : (!l.record.status.isClaimable) = true
        · rw [if_pos hclaimable, if_pos hclaimable]
          exact ⟨rfl, .same⟩
        · rw [if_neg hclaimable, if_neg hclaimable]
          refine transition_tenant h hl (not_not.mp hversion) ?_ now _
          rcases EffectStatus.isClaimable_iff.mp (by simpa using hclaimable) with hs | hs <;> rw [hs] <;>
            rfl
  | resolve e resolution evidence =>
    simp only [Broker.serve, Broker.run_resolve, Book.callBroker, find_tenant h]
    cases hl : (s.book.tenant t).ledger e with
    | none => exact ⟨rfl, .same⟩
    | some l =>
      obtain ⟨-, rfl⟩ := Book.mem_of_ledger hl
      simp only [Option.map_some]
      by_cases hrefused : l.record.status ≠ .manualReview ∨ (!Broker.isResolution resolution) = true
      · rw [if_pos hrefused, if_pos hrefused]
        exact ⟨rfl, .same⟩
      · rw [if_neg hrefused, if_neg hrefused]
        refine transition_tenant h hl rfl ?_ now _
        obtain ⟨hstatus, hresolution⟩ := not_or.mp hrefused
        rw [not_not.mp hstatus]
        revert hresolution
        cases resolution <;> decide

end InMemoryStore
end EffectBroker
