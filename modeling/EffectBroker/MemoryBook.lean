import EffectBroker.LedgerStore
import EffectBroker.EventStory

/-!
# The book in the in-memory tables

The in-memory store keeps the ledgers of a book in the order of its records.  While its
claims do not overflow, and no effect is older than one reserved before it, it does what
the store without tables does (`serve_book`).
-/
namespace EffectBroker
open Python

namespace Book
variable {b b' : Book}

/-- A book is known by the order of its effects and by the ledger of each of them. -/
theorem ext (hb : b.Unique) (hb' : b'.Unique)
    (hids : b.map EffectLedger.id = b'.map EffectLedger.id)
    (hledger : ∀ e, b.ledger e = b'.ledger e) : b = b' := by
  have hlength : b.length = b'.length := by
    simpa using congrArg List.length hids
  refine List.ext_getElem hlength fun i hi hi' => ?_
  have hid : b[i].id = b'[i].id := by
    have := List.getElem_of_eq hids (by simpa using hi)
    simpa using this
  have hfound := hb.ledger_of_mem (List.getElem_mem hi)
  rw [hid, hledger, hb'.ledger_of_mem (List.getElem_mem hi')] at hfound
  exact (Option.some.inj hfound).symm

end Book

namespace InMemoryStore
variable {s s' : InMemoryStore} {e : Str}

/-- The ledger of an item. -/
def entry (s : InMemoryStore) (item : Str × EffectRecord) : EffectLedger :=
  ⟨item.2, s.leases.get? item.1, s.attemptsOf item.1, s.eventsOf item.1⟩

/-- The ledgers of all effects, in the order of the records. -/
def book (s : InMemoryStore) : Book := s.records.items.map s.entry

/-! ## Finding ledgers -/

theorem Kept.ids_book (h : s.Kept) : s.book.map EffectLedger.id = s.records.keys := by
  unfold book Dict.keys
  rw [List.map_map]
  refine List.map_congr_left fun item hm => ?_
  exact h.effectId _ _ (Dict.get?_of_mem_items hm)

/-- The next id is new. -/
theorem Kept.next_not_mem (h : s.Kept) : effectIdOf s.nextEffectId ∉ s.book.map EffectLedger.id := by
  rw [h.ids_book]
  intro hm
  obtain ⟨⟨e, record⟩, hitem, he⟩ := List.mem_map.mp hm
  have hget := Dict.get?_of_mem_items hitem
  rw [show e = effectIdOf s.nextEffectId from he, h.unused le_rfl] at hget
  cases hget

/-- A ledger of the book belongs to a record. -/
theorem Kept.mem_book (h : s.Kept) {l : EffectLedger} :
    l ∈ s.book ↔ s.ledgerOf l.id = some l := by
  constructor
  · intro hm
    obtain ⟨⟨key, record⟩, hitem, rfl⟩ := List.mem_map.mp hm
    have hget := Dict.get?_of_mem_items hitem
    have hid : record.effectId = key := h.effectId _ _ hget
    show s.ledgerOf record.effectId = _
    rw [hid, ledgerOf_eq hget]
    rfl
  · intro hl
    obtain ⟨record, hget, hrecord⟩ := Option.map_eq_some_iff.mp hl
    exact List.mem_map.mpr ⟨(l.id, record), Dict.mem_items_of_get? hget, hrecord⟩

theorem Kept.unique (h : s.Kept) : s.book.Unique := by
  have hids : (s.book.map EffectLedger.id).Nodup := by
    rw [h.ids_book]
    exact s.records.nodup
  refine ⟨hids, List.Nodup.map_on (fun l hl l' hl' hsame => ?_) (List.Nodup.of_map _ hids)⟩
  -- the identity leads to the effect of each of the two
  have hfound : ∀ l ∈ s.book, s.identity.get? l.identity = some l.id := by
    intro l hl
    obtain ⟨record, hget, hrecord⟩ := Option.map_eq_some_iff.mp (h.mem_book.mp hl)
    refine (h.identity _ _).mpr ⟨record, hget, ?_⟩
    rw [← hrecord]
    rfl
  have hid := hfound l hl
  rw [hsame, hfound l' hl'] at hid
  exact List.inj_on_of_nodup_map hids hl hl' (Option.some.inj hid).symm

theorem Kept.ledger_book (h : s.Kept) (e : Str) : s.book.ledger e = s.ledgerOf e := by
  cases hl : s.ledgerOf e with
  | none =>
    refine Book.ledger_eq_none.mpr fun l hm hid => ?_
    rw [← hid, h.mem_book.mp hm] at hl
    cases hl
  | some l =>
    obtain ⟨record, hget, rfl⟩ := Option.map_eq_some_iff.mp hl
    have hid : record.effectId = e := h.effectId _ _ hget
    have hmem := List.mem_map_of_mem (f := s.entry) (Dict.mem_items_of_get? hget)
    have hfound := h.unique.ledger_of_mem hmem
    rwa [show (s.entry (e, record)).id = e from hid] at hfound

theorem Kept.reserved_book (h : s.Kept) (tenantId operationKey : Str) :
    s.book.reserved tenantId operationKey =
      (s.identity.get? (tenantId, operationKey)).bind s.ledgerOf := by
  cases hidentity : s.identity.get? (tenantId, operationKey) with
  | none =>
    refine Book.reserved_eq_none.mpr fun l hm hsame => ?_
    obtain ⟨record, hget, hrecord⟩ := Option.map_eq_some_iff.mp (h.mem_book.mp hm)
    have hkey := (h.identity (tenantId, operationKey) l.id).mpr ⟨record, hget, ?_⟩
    · rw [hidentity] at hkey
      cases hkey
    · rw [← hsame, ← hrecord]
      rfl
  | some e =>
    obtain ⟨record, hget, hkey⟩ := (h.identity _ _).mp hidentity
    have hl := ledgerOf_eq hget
    have hid : record.effectId = e := h.effectId _ _ hget
    rw [Option.bind_some, hl]
    refine (congrArg₂ _ ?_ ?_).trans (h.unique.reserved_of_mem (h.mem_book.mpr ?_))
    · exact (congrArg Prod.fst hkey).symm
    · exact (congrArg Prod.snd hkey).symm
    · rw [← hl]
      exact congrArg s.ledgerOf hid

theorem Sound.good (h : s.Sound) : s.book.Good :=
  ⟨h.toKept.unique, fun _ hl => h.sound _ _ (h.toKept.mem_book.mp hl)⟩

/-- The ledger of an effect is about it. -/
theorem Kept.id_of_ledgerOf (h : s.Kept) {l : EffectLedger} (hl : s.ledgerOf e = some l) :
    l.id = e := by
  obtain ⟨record, hget, rfl⟩ := Option.map_eq_some_iff.mp hl
  exact h.effectId e record hget

/-! ## Changing ledgers -/

/-- A change of ledgers that keeps the order of the records. -/
theorem Kept.book_map (h : s.Kept) (h' : s'.Kept) {f : EffectLedger → EffectLedger}
    (hid : ∀ l, (f l).id = l.id) (hidentity : ∀ l, (f l).identity = l.identity)
    (hkeys : s'.records.keys = s.records.keys)
    (hledger : ∀ e l, s.ledgerOf e = some l → s'.ledgerOf e = some (f l)) :
    s'.book = s.book.map f := by
  have hids : (s.book.map f).map EffectLedger.id = s.book.map EffectLedger.id := by
    rw [List.map_map]
    exact List.map_congr_left fun l _ => hid l
  have hidentities : (s.book.map f).map EffectLedger.identity =
      s.book.map EffectLedger.identity := by
    rw [List.map_map]
    exact List.map_congr_left fun l _ => hidentity l
  have hunique : Book.Unique (s.book.map f) :=
    ⟨hids ▸ h.unique.ids, hidentities ▸ h.unique.identities⟩
  have hsame : s'.book.map EffectLedger.id = (s.book.map f).map EffectLedger.id := by
    rw [hids, h.ids_book, h'.ids_book, hkeys]
  refine Book.ext h'.unique hunique hsame fun e => ?_
  cases hl : s.book.ledger e with
  | none =>
    -- the effect is in neither book
    have hnot : e ∉ s.book.map EffectLedger.id := fun hm => by
      obtain ⟨l, hl', he⟩ := List.mem_map.mp hm
      exact Book.ledger_eq_none.mp hl l hl' he
    rw [Book.ledger_eq_none.mpr fun l hm he => hnot ?_, Book.ledger_eq_none.mpr fun l hm he => hnot ?_]
    · rw [← hids]
      exact List.mem_map.mpr ⟨l, hm, he⟩
    · rw [← hids, ← hsame]
      exact List.mem_map.mpr ⟨l, hm, he⟩
  | some l =>
    obtain ⟨hm, rfl⟩ := Book.mem_of_ledger hl
    have hfound := hunique.ledger_of_mem (List.mem_map_of_mem (f := f) hm)
    rw [hid] at hfound
    rw [hfound, h'.ledger_book, hledger l.id l (h.mem_book.mp hm)]

theorem Kept.book_modify (h : s.Kept) (h' : s'.Kept) {f : EffectLedger → EffectLedger}
    (hid : ∀ l, (f l).id = l.id) (hidentity : ∀ l, (f l).identity = l.identity)
    (hkeys : s'.records.keys = s.records.keys)
    (hledger : ∀ e', s'.ledgerOf e' = if e' = e then (s.ledgerOf e).map f else s.ledgerOf e') :
    s'.book = s.book.modify e f := by
  refine h.book_map h' (fun l => ?_) (fun l => ?_) hkeys fun e' l hl => ?_
  · split
    · exact hid l
    · rfl
  · split
    · exact hidentity l
    · rfl
  · rw [hledger, h.id_of_ledgerOf hl]
    by_cases he : e' = e
    · rw [if_pos he, if_pos he, ← he, hl]
      rfl
    · rw [if_neg he, if_neg he, hl]

theorem keys_claimAll (workerId : Str) (now expiresAt : Datetime)
    {items : List (Str × EffectRecord)} {s : InMemoryStore}
    (hitems : ∀ item ∈ items, s.records.get? item.1 ≠ none) :
    (s.claimAll workerId now expiresAt items).records.keys = s.records.keys := by
  induction items generalizing s with
  | nil => rfl
  | cons item rest ih =>
    obtain ⟨hfirst, hrest⟩ := List.forall_mem_cons.mp hitems
    obtain ⟨record, hget⟩ := Option.ne_none_iff_exists'.mp hfirst
    refine (ih fun item' hm => ?_).trans (Dict.keys_set_of_get? hget _)
    rw [addClaim_records]
    split
    · exact Option.some_ne_none _
    · exact hrest item' hm

theorem Kept.book_claimAll (h : s.Kept) (workerId : Str) (now expiresAt : Datetime) (n : Nat) :
    (s.claimAll workerId now expiresAt (s.picks now n s.records.items)).book =
      s.book.claimAll ((s.picks now n s.records.items).map Prod.fst) workerId now expiresAt := by
  obtain ⟨hnodup, hitems⟩ := picks_items h now n
  have hkept := h.claimAll hnodup (fun item hm => ⟨(hitems item hm).1,
    (Bool.and_eq_true_iff.mp (hitems item hm).2.2).1⟩) workerId now expiresAt
  have hkeys := keys_claimAll workerId now expiresAt (s := s) fun item hm => by
    rw [(hitems item hm).1]
    exact Option.some_ne_none _
  refine h.book_map hkept (fun l => ?_) (fun l => ?_) hkeys fun e l hl => ?_
  · split <;> rfl
  · split <;> rfl
  · rw [ledgerOf_claimAll workerId now expiresAt hnodup
      (fun item hm => ⟨(hitems item hm).1, (hitems item hm).2.1⟩), h.id_of_ledgerOf hl, hl]
    split <;> rfl

theorem Kept.book_insertEffect (h : s.Kept) {record : EffectRecord}
    (hid : record.effectId = effectIdOf s.nextEffectId) :
    ({ s with nextEffectId := s.nextEffectId + 1 }.insertEffect record).book =
      s.book ++ [.reserved record] := by
  have hunused := h.unused le_rfl
  rw [← hid] at hunused
  have hlease := h.no_lease (e := record.effectId) fun r hr => by
    rw [hunused] at hr
    cases hr
  have hledger := ledgerOf_insertEffect { s with nextEffectId := s.nextEffectId + 1 } hlease
  have hitems : ({ s with nextEffectId := s.nextEffectId + 1 }.insertEffect record).records.items =
      s.records.items ++ [(record.effectId, record)] := Dict.items_set_of_get?_none hunused record
  unfold book
  rw [hitems, List.map_append, List.map_singleton]
  congr 1
  · refine List.map_congr_left fun item hm => ?_
    have hget := Dict.get?_of_mem_items hm
    have hne : item.1 ≠ record.effectId := fun he => by
      rw [← he, hget] at hunused
      cases hunused
    have hsame := hledger item.1
    rw [if_neg hne] at hsame
    have hget' : ({ s with nextEffectId := s.nextEffectId + 1 }.insertEffect record).records.get?
        item.1 = some item.2 := by
      rw [insertEffect_records, if_neg hne]
      exact hget
    exact Option.some.inj ((ledgerOf_eq hget').symm.trans (hsame.trans (ledgerOf_eq hget)))
  · have hself := hledger record.effectId
    rw [if_pos rfl] at hself
    have hget' : ({ s with nextEffectId := s.nextEffectId + 1 }.insertEffect record).records.get?
        record.effectId = some record := by
      rw [insertEffect_records, if_pos rfl]
    exact congrArg (fun l => [l]) (Option.some.inj ((ledgerOf_eq hget').symm.trans hself))



/-! ## What a call does -/

/-- The hash and the key of every record are those of its request. -/
def AllPinned (s : InMemoryStore) : Prop :=
  ∀ l ∈ s.book, Pinned s.hashes s.tenantKeyProvider l.record

theorem reserve_book (h : s.Kept) (hpinned : s.AllPinned) (now : Datetime) (tenantId : Str)
    (request : EffectRequest) (contract : EffectContract) :
    let out := s.reserve now tenantId request contract
    (out.1.map StoreValue.reservation, out.2.book) = s.book.outcome .reservation
      (s.book.reserve s.hashes s.tenantKeyProvider now (zeroPadded 6 s.nextEffectId) tenantId
        request contract) := by
  intro out
  have hreserved := h.reserved_book tenantId request.operationKey
  have hunused := h.ledger_book (effectIdOf s.nextEffectId)
  rw [ledgerOf_none (h.unused le_rfl)] at hunused
  simp only [out, reserve, Book.reserve, newRecord]
  cases hdigest : requestHash s.hashes request.tool request.arguments contract.name contract.version with
  | error exc => rfl
  | ok digest =>
    simp only [ok_bind]
    cases hidentity : s.identity.get? (tenantId, request.operationKey) with
    | some e =>
      -- the key of an operation that has been reserved can be derived again
      obtain ⟨existing, hget, hkey⟩ := (h.identity _ _).mp hidentity
      have hl := ledgerOf_eq hget
      rw [hidentity, Option.bind_some, hl] at hreserved
      have hmem : _ ∈ s.book := (Book.mem_of_reserved hreserved).1
      obtain ⟨tenantKey, htenant, hdownstream⟩ := (hpinned _ hmem).key
      obtain ⟨hsameTenant, hsameKey⟩ := Prod.mk.inj hkey
      simp only [hsameTenant] at htenant
      simp only [hsameTenant, hsameKey] at hdownstream
      simp only [htenant, ok_bind, hdownstream, hget, hreserved]
      by_cases hhash : existing.requestHash = digest
      · simp [hhash, Book.outcome, Except.map]
      · simp [hhash, Book.outcome, Except.map]
    | none =>
      rw [hidentity, Option.bind_none] at hreserved
      simp only [hreserved]
      cases htenant : s.tenantKeyProvider tenantId with
      | error exc => rfl
      | ok tenantKey =>
        simp only [ok_bind]
        cases hkey : downstreamKey s.hashes tenantKey tenantId request.operationKey with
        | error exc => rfl
        | ok key =>
          have hfree : (s.book.ledger (effectIdOf s.nextEffectId)).isSome = false := by
            rw [hunused]
            rfl
          simp only [ok_bind]
          show _ = Book.outcome _ _ (if (s.book.ledger (effectIdOf s.nextEffectId)).isSome = true
            then _ else _)
          rw [hfree]
          exact Prod.ext rfl (h.book_insertEffect rfl)


theorem current_book (h : s.Kept) (e : Str) (expectedVersion : Int) :
    s.book.current e expectedVersion =
      (s.recordForUpdate e expectedVersion).map fun record => s.entry (e, record) := by
  unfold Book.current recordForUpdate
  rw [h.ledger_book]
  cases hget : s.records.get? e with
  | none =>
    rw [ledgerOf_none hget]
    rfl
  | some record =>
    rw [ledgerOf_eq hget]
    simp only
    split <;> rfl

theorem startAttempt_book (h : s.Kept) (now : Datetime) (e : Str) (expectedVersion : Int)
    (workerId : Str) :
    let out := s.startAttempt now e expectedVersion workerId
    (out.1.map StoreValue.attemptId, out.2.book) = s.book.outcome .attemptId
      (s.book.startAttempt now e expectedVersion workerId) := by
  intro out
  simp only [out, startAttempt, Book.startAttempt, current_book h]
  cases hrecord : s.recordForUpdate e expectedVersion with
  | error exc => rfl
  | ok record =>
    obtain ⟨hget, -⟩ := recordForUpdate_ok.mp hrecord
    have hid := h.effectId _ _ hget
    have hkept : (s.addAttempt record now e workerId).Kept :=
      ⟨h.effectId, h.fresh, h.identity, h.lease⟩
    exact Prod.ext rfl (h.book_modify hkept (fun _ => rfl) (fun _ => rfl) rfl
      (ledgerOf_addAttempt s hget hid now workerId))

theorem transition_book (h : s.Kept) (now : Datetime) (e : Str) (expectedVersion : Int)
    (target : EffectStatus) (data : Items) :
    let out := s.transition now e expectedVersion target data
    (out.1.map StoreValue.effect, out.2.book) = s.book.outcome .effect
      (s.book.transition now e expectedVersion target data) := by
  intro out
  simp only [out, transition, Book.transition, current_book h]
  cases hrecord : s.recordForUpdate e expectedVersion with
  | error exc => rfl
  | ok record =>
    obtain ⟨hget, -⟩ := recordForUpdate_ok.mp hrecord
    have hid := h.effectId _ _ hget
    have hassert : (s.entry (e, record)).record.status = record.status := rfl
    simp only [Except.map, ok_bind, hassert]
    cases hallowed : assertTransition record.status target with
    | error exc => rfl
    | ok value =>
      have hlease : target.isClaimable → s.leases.get? e = none := fun hc =>
        h.no_lease fun r hr => by
          rw [hget] at hr
          cases hr
          exact not_isClaimable_of_isAllowed (assertTransition_ok.mp hallowed) hc
      have hkeys : (s.moveRecord record now e target data).records.keys = s.records.keys := by
        unfold moveRecord
        rw [appendEvent_records]
        split <;> exact Dict.keys_set_of_get? hget _
      exact Prod.ext rfl (h.book_modify (h.moveRecord hget target now data) (fun _ => rfl)
        (fun _ => rfl) hkeys (ledgerOf_moveRecord s hget hid hlease now data))


theorem due_entry (s : InMemoryStore) (now : Datetime) (item : Str × EffectRecord) :
    (s.entry item).due now = s.dueAt now item := by
  unfold EffectLedger.due dueAt leaseActive
  show (_ && (s.leases.get? item.1).all _) = _
  cases s.leases.get? item.1 with
  | none => rfl
  | some lease =>
    refine congrArg (item.2.status.isClaimable && ·) ?_
    show decide (lease.expiresAt ≤ now) = !decide (now < lease.expiresAt)
    simp [← not_lt]

theorem picks_book (s : InMemoryStore) (now : Datetime) (limit : Int) :
    Book.picks s.book now limit = (s.picks now limit.toNat s.records.items).map s.entry := by
  unfold Book.picks book picks
  have hdue : s.records.items.filter ((·.due now) ∘ s.entry) = s.records.items.filter (s.dueAt now) :=
    List.filter_congr fun item _ => due_entry s now item
  rw [List.filter_map, List.map_take, hdue]

/-- Claims take the due effects of the book in its order. -/
theorem claimDue_book (h : s.Kept) (workerId : Str) {now : Datetime} {leaseFor : Timedelta}
    {limit : Int} (hadd : 0 < limit → now.add leaseFor ≠ none) :
    let out := s.claimDue workerId now leaseFor limit
    (out.1.map StoreValue.effects, out.2.book) = s.book.outcome .effects
      (s.book.claimDue s.book workerId now leaseFor limit) := by
  intro out
  unfold Book.claimDue
  by_cases hlimit : limit ≤ 0
  · simp only [out, claimDue, if_pos hlimit]
    rfl
  · obtain ⟨expiresAt, hexpires⟩ := Option.ne_none_iff_exists'.mp (hadd (by omega))
    have hloop := claimLoop_eq workerId hexpires limit s.records.items s [] s.records.nodup
    have hout : out = claimLoop workerId now leaseFor limit s.records.items s [] := if_neg hlimit
    have hzero : (limit - ([] : List EffectRecord).length).toNat = limit.toNat := by simp
    rw [hzero, List.nil_append] at hloop
    rw [hout, hloop, if_neg hlimit]
    simp only [hexpires, picks_book]
    have hids : ((s.picks now limit.toNat s.records.items).map s.entry).map EffectLedger.id =
        (s.picks now limit.toNat s.records.items).map Prod.fst := by
      rw [List.map_map]
      refine List.map_congr_left fun item hm => ?_
      exact ((picks_items h now limit.toNat).2 item hm).2.1
    rw [hids, List.map_map]
    exact Prod.ext rfl (h.book_claimAll workerId now expiresAt limit.toNat)


/-! ## Queries -/

theorem find_book (h : s.Kept) (tenantId e : Str) :
    s.get tenantId e = (s.book.ofTenant tenantId e).map EffectLedger.record := by
  unfold get Book.ofTenant
  rw [h.ledger_book]
  cases hget : s.records.get? e with
  | none =>
    rw [ledgerOf_none hget]
    rfl
  | some record =>
    rw [ledgerOf_eq hget, Option.filter_some]
    by_cases htenant : record.tenantId = tenantId
    · simp [htenant]
    · simp [htenant]

theorem receipt_book (h : s.Kept) (tenantId e : Str) :
    s.receipt tenantId e = (s.book.ofTenant tenantId e).bind EffectLedger.receipt := by
  unfold receipt
  rw [find_book h]
  cases hl : s.book.ofTenant tenantId e with
  | none => rfl
  | some l =>
    obtain ⟨hledger, -⟩ := Option.filter_eq_some_iff.mp hl
    rw [h.ledger_book] at hledger
    obtain ⟨record, hget, rfl⟩ := Option.map_eq_some_iff.mp hledger
    obtain rfl := h.effectId _ _ hget
    rfl

/-- Only effects that have a record have attempts and events. -/
def Owned (s : InMemoryStore) : Prop :=
  ∀ e, s.records.get? e = none → s.attemptsOf e = [] ∧ s.eventsOf e = []

/-- A change of one effect that has a record then. -/
theorem Owned.update (h : s.Owned) (e : Str) (hget : s'.records.get? e ≠ none)
    (hrecords : ∀ e', e' ≠ e → s'.records.get? e' = s.records.get? e')
    (hattempts : ∀ e', e' ≠ e → s'.attemptsOf e' = s.attemptsOf e')
    (hevents : ∀ e', e' ≠ e → s'.eventsOf e' = s.eventsOf e') : s'.Owned := by
  intro e' hnone
  have hne : e' ≠ e := fun he => hget (he ▸ hnone)
  rw [hattempts e' hne, hevents e' hne]
  exact h e' ((hrecords e' hne).symm.trans hnone)

theorem Owned.claimAll {items : List (Str × EffectRecord)} {s : InMemoryStore} (h : s.Owned)
    (workerId : Str) (now expiresAt : Datetime) :
    (s.claimAll workerId now expiresAt items).Owned := by
  induction items generalizing s with
  | nil => exact h
  | cons item rest ih =>
    obtain ⟨effectId, record⟩ := item
    refine ih (h.update effectId ?_ (fun e' hne => ?_) (fun e' hne => rfl) fun e' hne => ?_)
    · rw [addClaim_records, if_pos rfl]
      exact Option.some_ne_none _
    · rw [addClaim_records, if_neg hne]
    · exact (eventsOf_appendEvent ..).trans (if_neg hne)

theorem Owned.serve (h : s.Owned) (hkept : s.Kept) (c : TimedCall) : (serve c s).2.Owned := by
  obtain ⟨call, now, uuid⟩ := c
  cases call with
  | reserve tenantId request contract =>
    show (s.reserve now tenantId request contract).2.Owned
    rcases s.reserve_cases now tenantId request contract with
      ⟨exc, next, heq, -⟩ | ⟨existing, heq, -⟩ | ⟨record, heq, -⟩ <;> rw [heq]
    · exact h
    · exact h
    · refine Owned.update (s := s) h record.effectId ?_ (fun e' hne => ?_) (fun e' hne => ?_)
        fun e' hne => ?_
      · rw [insertEffect_records, if_pos rfl]
        exact Option.some_ne_none _
      · rw [insertEffect_records, if_neg hne]
      · rw [insertEffect_attempts, if_neg hne]
        rfl
      · rw [insertEffect_events, if_neg hne]
        rfl
  | claimDue workerId now' leaseFor limit =>
    show (s.claimDue workerId now' leaseFor limit).2.Owned
    rcases claimDue_cases hkept workerId now' leaseFor limit with
      ⟨results, heq, -⟩ | ⟨expiresAt, -, -, heq⟩ | ⟨effectId, record, -, -, -, -, heq⟩ <;> rw [heq]
    · exact h
    · exact h.claimAll workerId now' expiresAt
    · refine h.update effectId ?_ (fun e' hne => Dict.get?_set_ne _ hne _) (fun _ _ => rfl)
        fun _ _ => rfl
      show (s.records.set effectId _).get? effectId ≠ none
      rw [Dict.get?_set_self]
      exact Option.some_ne_none _
  | startAttempt effectId expectedVersion workerId =>
    show (s.startAttempt now effectId expectedVersion workerId).2.Owned
    rcases s.startAttempt_cases now effectId expectedVersion workerId with
      ⟨exc, heq⟩ | ⟨record, hget, -, heq⟩ <;> rw [heq]
    · exact h
    · refine h.update effectId ?_ (fun _ _ => rfl) (fun e' hne => ?_) fun e' hne => ?_
      · rw [addAttempt_records, hget]
        exact Option.some_ne_none _
      · rw [addAttempt_attempts, if_neg hne]
      · exact (eventsOf_appendEvent ..).trans (if_neg hne)
  | transition effectId expectedVersion target data =>
    show (s.transition now effectId expectedVersion target data).2.Owned
    rcases s.transition_cases now effectId expectedVersion target data with
      ⟨exc, heq, -⟩ | ⟨record, hget, -, -, heq⟩ <;> rw [heq]
    · exact h
    · refine h.update effectId ?_ (fun e' hne => ?_) (fun e' hne => ?_) fun e' hne => ?_
      · rw [moveRecord_records, if_pos rfl]
        exact Option.some_ne_none _
      · rw [moveRecord_records, if_neg hne]
      · unfold attemptsOf
        rw [moveRecord_attempts]
      · rw [moveRecord_events, if_neg hne]
  | get | list | receipt | events | attemptCount | count => exact h

theorem events_book (h : s.Kept) (howned : s.Owned) (e : Str) : s.book.eventsOf e = s.eventsOf e := by
  unfold Book.eventsOf
  rw [h.ledger_book]
  cases hget : s.records.get? e with
  | none =>
    rw [ledgerOf_none hget, (howned e hget).2]
    rfl
  | some record =>
    rw [ledgerOf_eq hget]
    rfl

theorem attempts_book (h : s.Kept) (howned : s.Owned) (e : Str) :
    s.book.attemptsOf e = s.attemptsOf e := by
  unfold Book.attemptsOf
  rw [h.ledger_book]
  cases hget : s.records.get? e with
  | none =>
    rw [ledgerOf_none hget, (howned e hget).1]
    rfl
  | some record =>
    rw [ledgerOf_eq hget]
    rfl

/-- A slice is a page. -/
theorem slice_eq_pageOf {α : Type} (list : List α) {limit offset : Int} (hlimit : 0 ≤ limit)
    (hoffset : 0 ≤ offset) : slice list offset (offset + limit) = pageOf list limit offset := by
  have hstart : ¬offset < 0 := by omega
  have hstop : ¬offset + limit < 0 := by omega
  have hsome : ¬limit < 0 := by omega
  have hadd : (offset + limit).toNat = offset.toNat + limit.toNat := by omega
  unfold slice pageOf
  simp only [if_neg hstart, if_neg hstop, if_neg hsome, hadd]
  rw [List.take_drop, Nat.add_comm]

theorem values_book : s.records.values = s.book.map EffectLedger.record := by
  unfold book Dict.values
  rw [List.map_map]
  rfl

theorem list_book (h : s.Kept) (tenantId : Str) (status : Option EffectStatus) {limit offset : Int}
    (hlimit : 0 ≤ limit) (hoffset : 0 ≤ offset) :
    s.list tenantId status limit offset = s.book.list tenantId status limit offset := by
  have hsort : ∀ b : Book, (b.map EffectLedger.record).insertionSort listedBefore =
      b.queue.map EffectLedger.record := fun b =>
    (List.map_insertionSort Book.before listedBefore EffectLedger.record b
      fun _ _ _ _ => Iff.rfl).symm
  unfold list Book.list
  rw [slice_eq_pageOf _ hlimit hoffset, values_book, List.filter_map, hsort, Book.filter_queue h.unique]
  exact pageOf_map ..

/-! ## All calls -/

/-- The hash functions and the keys of the tenants stay. -/
theorem serve_secrets (h : s.Kept) (c : TimedCall) :
    ((serve c s).2.hashes, (serve c s).2.tenantKeyProvider) = (s.hashes, s.tenantKeyProvider) := by
  obtain ⟨call, now, uuid⟩ := c
  cases call with
  | reserve tenantId request contract =>
    show ((s.reserve now tenantId request contract).2.hashes, _) = _
    rcases s.reserve_cases now tenantId request contract with
      ⟨exc, next, heq, -⟩ | ⟨existing, heq, -⟩ | ⟨record, heq, -⟩ <;>
      simp only [serve, heq]
    rfl
  | claimDue workerId now' leaseFor limit =>
    have hall : ∀ (items : List (Str × EffectRecord)) (s : InMemoryStore) (expiresAt : Datetime),
        ((s.claimAll workerId now' expiresAt items).hashes,
          (s.claimAll workerId now' expiresAt items).tenantKeyProvider) =
          (s.hashes, s.tenantKeyProvider) := by
      intro items
      induction items with
      | nil => exact fun _ _ => rfl
      | cons item items ih => exact fun s expiresAt => ih (s.addClaim ..) expiresAt
    rcases claimDue_cases h workerId now' leaseFor limit with
      ⟨results, heq, -⟩ | ⟨expiresAt, -, -, heq⟩ | ⟨effectId, record, -, -, -, -, heq⟩ <;>
      simp only [serve, heq]
    · exact hall ..
    · rfl
  | startAttempt effectId expectedVersion workerId =>
    rcases s.startAttempt_cases now effectId expectedVersion workerId with
      ⟨exc, heq⟩ | ⟨record, -, -, heq⟩ <;> simp only [serve, heq]
    rfl
  | transition effectId expectedVersion target data =>
    rcases s.transition_cases now effectId expectedVersion target data with
      ⟨exc, heq, -⟩ | ⟨record, -, -, -, heq⟩ <;> simp only [serve, heq]
    unfold moveRecord
    split <;> rfl
  | get | list | receipt | events | attemptCount | count => rfl

/-- A call of which the in-memory store and the store without tables think alike: a claim
that takes effects can say until when, and a page starts somewhere. -/
def Plain (c : TimedCall) : Prop :=
  match c.call with
  | .claimDue _ now leaseFor limit => 0 < limit → now.add leaseFor ≠ none
  | .list _ _ limit offset => 0 ≤ limit ∧ 0 ≤ offset
  | _ => True

/-- **The in-memory store keeps a book.** -/
theorem serve_book (h : s.Kept) (howned : s.Owned) (hpinned : s.AllPinned)
    (hsorted : s.book.Pairwise Book.before) {c : TimedCall} (hc : Plain c) :
    ((serve c s).1, (serve c s).2.book) =
      s.book.serve s.hashes s.tenantKeyProvider { c with uuid := zeroPadded 6 s.nextEffectId } := by
  obtain ⟨call, now, uuid⟩ := c
  cases call with
  | reserve tenantId request contract => exact reserve_book h hpinned now tenantId request contract
  | claimDue workerId now' leaseFor limit =>
    have hqueue : s.book.queue = s.book := List.Pairwise.insertionSort_eq hsorted
    refine (claimDue_book h workerId hc).trans ?_
    show _ = Book.outcome _ _ (s.book.claimDue s.book.queue workerId now' leaseFor limit)
    rw [hqueue]
  | startAttempt e expectedVersion workerId => exact startAttempt_book h now e expectedVersion workerId
  | transition e expectedVersion target data => exact transition_book h now e expectedVersion target data
  | get tenantId e =>
    show (Except.ok (StoreValue.found (s.get tenantId e)), s.book) = _
    rw [find_book h]
    rfl
  | list tenantId status limit offset =>
    show (Except.ok (StoreValue.effects (s.list tenantId status limit offset)), s.book) = _
    rw [list_book h tenantId status hc.1 hc.2]
    rfl
  | receipt tenantId e =>
    show (Except.ok (StoreValue.receipt (s.receipt tenantId e)), s.book) = _
    rw [receipt_book h]
    rfl
  | events e =>
    show (Except.ok (StoreValue.events ((s.eventsOf e).map MemoryEvent.stored)), s.book) = _
    rw [← events_book h howned]
    rfl
  | attemptCount e =>
    show (Except.ok (StoreValue.number (s.attemptsOf e).length), s.book) = _
    rw [← attempts_book h howned]
    rfl
  | count =>
    show (Except.ok (StoreValue.number s.records.size), s.book) = (.ok (.number s.book.length), s.book)
    rw [book, List.length_map]
    rfl

/-! ## All runs -/

/-- Only a reservation adds a record. -/
theorem serve_keys (h : s.Kept) {c : TimedCall}
    (hc : ∀ tenantId request contract, c.call ≠ .reserve tenantId request contract) :
    (serve c s).2.records.keys = s.records.keys := by
  obtain ⟨call, now, uuid⟩ := c
  cases call with
  | reserve tenantId request contract => exact absurd rfl (hc tenantId request contract)
  | claimDue workerId now' leaseFor limit =>
    show (s.claimDue workerId now' leaseFor limit).2.records.keys = _
    rcases claimDue_cases h workerId now' leaseFor limit with
      ⟨results, heq, -⟩ | ⟨expiresAt, -, -, heq⟩ | ⟨effectId, record, -, -, hget, -, heq⟩ <;> rw [heq]
    · refine keys_claimAll workerId now' expiresAt fun item hm => ?_
      rw [((picks_items h now' limit.toNat).2 item hm).1]
      exact Option.some_ne_none _
    · exact Dict.keys_set_of_get? hget _
  | startAttempt effectId expectedVersion workerId =>
    show (s.startAttempt now effectId expectedVersion workerId).2.records.keys = _
    rcases s.startAttempt_cases now effectId expectedVersion workerId with
      ⟨exc, heq⟩ | ⟨record, -, -, heq⟩ <;> rw [heq]
    rfl
  | transition effectId expectedVersion target data =>
    show (s.transition now effectId expectedVersion target data).2.records.keys = _
    rcases s.transition_cases now effectId expectedVersion target data with
      ⟨exc, heq, -⟩ | ⟨record, hget, -, -, heq⟩ <;> rw [heq]
    unfold moveRecord
    split <;> exact Dict.keys_set_of_get? hget _
  | get | list | receipt | events | attemptCount | count => rfl

/-- Pinned records stay pinned, and new ones are. -/
theorem AllPinned.serve (h : s.AllPinned) (hkept : s.Kept) (c : TimedCall) :
    (serve c s).2.AllPinned := by
  have hkept' := (serve_spec hkept c).1
  have hsecrets := Prod.mk.inj (serve_secrets hkept c)
  unfold AllPinned
  rw [hsecrets.1, hsecrets.2]
  by_cases hc : ∃ tenantId request contract, c.call = .reserve tenantId request contract
  · obtain ⟨tenantId, request, contract, hcall⟩ := hc
    have hbook : (s.reserve c.now tenantId request contract).2.book = (s.book.outcome .reservation
        (s.book.reserve s.hashes s.tenantKeyProvider c.now (zeroPadded 6 s.nextEffectId) tenantId
          request contract)).2 :=
      congrArg Prod.snd (reserve_book hkept h c.now tenantId request contract)
    have hserve : (InMemoryStore.serve c s).2 = (s.reserve c.now tenantId request contract).2 := by
      rw [InMemoryStore.serve, hcall]
    rw [hserve, hbook]
    rcases s.book.outcome_cases .reservation (s.book.reserve s.hashes s.tenantKeyProvider c.now
      (zeroPadded 6 s.nextEffectId) tenantId request contract) with hsame | ⟨reservation, hok⟩
    · rw [hsame]
      exact h
    · obtain ⟨record, hrecord, ⟨l, -, -, -, hb⟩ | ⟨-, -, -, hb⟩⟩ := Book.reserve_ok hok
      · rw [hb]
        exact h
      · rw [hb]
        obtain ⟨digest, tenantKey, key, hdigest, htenantKey, hkey, rfl⟩ := newRecord_ok hrecord
        exact List.forall_mem_append.mpr ⟨h, List.forall_mem_singleton.mpr
          ⟨hdigest, tenantKey, htenantKey, hkey⟩⟩
  · intro l hl
    have hrecord := serve_records hkept c l.id
    have hl' := hkept'.mem_book.mp hl
    rw [← record_ledgerOf (InMemoryStore.serve c s).2, hl', Option.map_some] at hrecord
    have hmem : l.id ∈ s.records.keys := by
      rw [← serve_keys hkept fun tenantId request contract hcall =>
        hc ⟨tenantId, request, contract, hcall⟩, ← hkept'.ids_book]
      exact List.mem_map_of_mem hl
    obtain ⟨⟨e, before⟩, hitem, rfl⟩ := List.mem_map.mp hmem
    have hget := Dict.get?_of_mem_items hitem
    have hpinned : Pinned s.hashes s.tenantKeyProvider before :=
      h (s.entry (l.id, before)) (List.mem_map_of_mem hitem)
    rw [hget] at hrecord
    generalize l.record = after at hrecord ⊢
    cases hrecord with
    | same => exact hpinned
    | claimed => exact hpinned.same rfl
    | moved => exact hpinned.same rfl

theorem pinned_of_run {hashes : Hashes} {tenantKeyProvider : TenantKeyProvider}
    {log : List (Served InMemoryStore)}
    (h : StoreRun InMemoryStore.serve (.initial hashes tenantKeyProvider) log s) :
    s.Kept ∧ s.AllPinned ∧ (s.hashes, s.tenantKeyProvider) = (hashes, tenantKeyProvider) := by
  induction h with
  | start => exact ⟨kept_initial .., fun _ hl => (nomatch hl), rfl⟩
  | call c _ ih =>
    obtain ⟨hkept, hpinned, hsecrets⟩ := ih
    exact ⟨(serve_spec hkept c).1, hpinned.serve hkept c, (serve_secrets hkept c).trans hsecrets⟩

end InMemoryStore
end EffectBroker
