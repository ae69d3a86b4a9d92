import EffectBroker.PostgresCalls

/-!
# Queries of the Postgres store

A query reads the book that is committed when it runs, and writes nothing.
-/
namespace EffectBroker
open Python Concurrency Transactions

/-! ## Answers -/

/-- An event as it is read. -/
def Jsonb.readEvent (jsonb : Jsonb) (event : MemoryEvent) : StoredEvent :=
  { event.stored with data := jsonb (normalItems event.data) }

/-- The receipt of a ledger as it is read. -/
def Jsonb.readReceipt (jsonb : Jsonb) (l : EffectLedger) : Option Items :=
  (InMemoryStore.lastSuccess l.events).map fun (metadata, at_) =>
    receiptOf l.record (jsonb (normalItems metadata)) at_

/-- What a query of a book answers. -/
def Answers (jsonb : Jsonb) (b : Book) (call : StoreCall) (value : StoreValue) : Prop :=
  match call with
  | .get tenantId e => ∃ found, value = .found found ∧
      Option.Rel (fun l record => jsonb.read l.record = .ok record) (b.ofTenant tenantId e) found
  | .list tenantId status limit offset => 0 ≤ limit ∧ 0 ≤ offset ∧ ∃ records, value = .effects records ∧
      List.Forall₂ (fun record read => jsonb.read record = .ok read)
        (b.list tenantId status limit offset) records
  | .receipt tenantId e => value = .receipt ((b.ofTenant tenantId e).bind jsonb.readReceipt)
  | .events e => value = .events ((b.eventsOf e).map jsonb.readEvent)
  | .attemptCount e => value = .number (b.attemptsOf e).length
  | .count => value = .number b.length
  | _ => False

/-- Why a query raises: an offset or a limit is negative. -/
def QueryRaises (call : StoreCall) (exc : Exc) : Prop :=
  match call with
  | .list _ _ limit offset =>
    offset < 0 ∧ exc = .other (str "DataError") (str "OFFSET must not be negative") ∨
      0 ≤ offset ∧ limit < 0 ∧ exc = .other (str "DataError") (str "LIMIT must not be negative")
  | _ => False

/-- What a query does. -/
def Queries (jsonb : Jsonb) (call : StoreCall) :
    Post Exc StoreValue PostgresWrite PostgresKey PostgresBook := fun result writes held a =>
  writes = [] ∧ held = ∅ ∧ match result with
    | .ok value => Answers jsonb a.book call value
    | .error exc => QueryRaises call exc

/-! ## What the tables answer -/

theorem Book.ofTenant_of_ledger {b : Book} {e : Str} {l : EffectLedger} (hl : b.ledger e = some l)
    (tenantId : Str) :
    b.ofTenant tenantId e = if l.record.tenantId = tenantId then some l else none := by
  rw [Book.ofTenant, hl, Option.filter_some]
  by_cases htenant : l.record.tenantId = tenantId
  · rw [if_pos (decide_eq_true htenant), if_pos htenant]
  · rw [if_neg fun h => htenant (of_decide_eq_true h), if_neg htenant]

theorem Book.ofTenant_of_none {b : Book} {e : Str} (hl : b.ledger e = none) (tenantId : Str) :
    b.ofTenant tenantId e = none := by
  rw [Book.ofTenant, hl]
  rfl

namespace PostgresTables.Holds
variable {jsonb : Jsonb} {s : PostgresTables} {a : PostgresBook}

theorem selectOwned (h : s.Holds jsonb a) (tenantId e : Str) :
    (s.intents.filter fun r => r.tenantId = tenantId ∧ r.effectId = e) =
      (a.book.ofTenant tenantId e).toList.map jsonb.effectRow := by
  have hboth : (s.intents.filter fun r => r.tenantId = tenantId ∧ r.effectId = e) =
      (s.intentsOf e).filter fun r => r.tenantId = tenantId := by
    unfold PostgresTables.intentsOf
    rw [List.filter_filter]
    exact List.filter_congr fun r _ => by simp
  rw [hboth, h.intentsOf]
  cases hl : a.book.ledger e with
  | none =>
    rw [Book.ofTenant_of_none hl]
    rfl
  | some l =>
    rw [Book.ofTenant_of_ledger hl]
    by_cases htenant : l.record.tenantId = tenantId
    · have hrow : (jsonb.effectRow l).tenantId = tenantId := htenant
      rw [if_pos htenant]
      simp [hrow]
    · have hrow : (jsonb.effectRow l).tenantId ≠ tenantId := htenant
      rw [if_neg htenant]
      simp [hrow]

theorem selectPage (h : s.Holds jsonb a) (tenantId : Str) (status : Option EffectStatus)
    {limit offset : Int} (hlimit : 0 ≤ limit) (hoffset : 0 ≤ offset) :
    ∃ ledgers : Book, (∀ l ∈ ledgers, l ∈ a.book) ∧
      s.selectPage tenantId status limit offset = .ok (ledgers.map jsonb.effectRow) ∧
      a.book.list tenantId status limit offset = ledgers.map EffectLedger.record := by
  let p : EffectLedger → Bool := fun l =>
    l.record.tenantId = tenantId && status.all fun status => l.record.status = status
  refine ⟨pageOf (a.book.queue.filter p) limit offset, fun l hl => ?_, ?_, rfl⟩
  · unfold pageOf at hl
    rw [if_neg (by omega)] at hl
    have hfilter := List.mem_of_mem_drop (List.mem_of_mem_take hl)
    exact Book.mem_queue.mp (List.mem_filter.mp hfilter).1
  · have hp : ((fun r : IntentRow => decide (r.tenantId = tenantId) &&
        status.all fun status => decide (r.status = status.value)) ∘ jsonb.effectRow) = p := by
      funext l
      refine congrArg (decide (l.record.tenantId = tenantId) && ·) ?_
      cases status with
      | none => rfl
      | some status => exact decide_eq_decide.mpr EffectStatus.value_injective.eq_iff
    unfold PostgresTables.selectPage pageOf
    rw [if_neg (by omega), if_neg (by omega), if_neg (by omega), h.intents]
    simp only
    rw [List.filter_map, hp, Book.filter_queue h.good.toUnique, Book.queue,
      ← List.map_insertionSort (r := Book.before) (s := intentBefore) jsonb.effectRow _
        fun l _ l' _ => Iff.rfl, List.map_take, List.map_drop]

/-- The events of an effect are read in the order of their numbers. -/
theorem selectEvents (h : s.Holds jsonb a) (e : Str) :
    (s.events.filter (·.effectId = e)).insertionSort (fun r r' => r.sequence ≤ r'.sequence) =
      (a.book.eventsOf e).map jsonb.eventRow := by
  rw [h.events]
  refine List.Pairwise.insertionSort_eq (List.pairwise_map.mpr ?_)
  cases hl : a.book.ledger e with
  | none =>
    rw [Book.eventsOf, hl]
    exact .nil
  | some l =>
    rw [Book.eventsOf, hl]
    have hnumbered := (h.good.sound l (Book.mem_of_ledger hl).1).story.numbered
    have hsorted : (l.events.map MemoryEvent.sequence).Pairwise (· ≤ ·) := by
      rw [hnumbered]
      exact (List.pairwise_lt_range' 1).imp fun hlt => hlt.le
    exact List.pairwise_map.mp hsorted

/-- A tenant's own effect has a row. -/
theorem any_owned (h : s.Holds jsonb a) (tenantId e : Str) :
    (s.intents.any fun r => r.effectId = e ∧ r.tenantId = tenantId) =
      (a.book.ofTenant tenantId e).isSome := by
  have hrows := h.selectOwned tenantId e
  rw [Bool.eq_iff_iff, List.any_eq_true, Option.isSome_iff_exists]
  constructor
  · rintro ⟨r, hr, hp⟩
    obtain ⟨he, htenant⟩ := of_decide_eq_true hp
    have hm : r ∈ s.intents.filter fun r => r.tenantId = tenantId ∧ r.effectId = e :=
      List.mem_filter.mpr ⟨hr, decide_eq_true ⟨htenant, he⟩⟩
    rw [hrows] at hm
    obtain ⟨l, hl, -⟩ := List.mem_map.mp hm
    exact ⟨l, Option.mem_toList.mp hl⟩
  · rintro ⟨l, hl⟩
    have hm : jsonb.effectRow l ∈ s.intents.filter fun r => r.tenantId = tenantId ∧ r.effectId = e := by
      rw [hrows, hl]
      exact List.mem_singleton.mpr rfl
    obtain ⟨hr, hp⟩ := List.mem_filter.mp hm
    obtain ⟨htenant, he⟩ := of_decide_eq_true hp
    exact ⟨_, hr, decide_eq_true ⟨he, htenant⟩⟩

/-- The receipt of a tenant's own effect is there exactly for a success. -/
theorem selectReceipt (h : s.Holds jsonb a) (tenantId e : Str) :
    List.Forall₂ (ReceiptRow.Tells jsonb)
      (s.receipts.filter fun receipt => receipt.effectId = e ∧
        s.intents.any fun r => r.effectId = receipt.effectId ∧ r.tenantId = tenantId)
      ((a.book.ofTenant tenantId e).elim [] EffectLedger.success) := by
  have howned : (s.receipts.filter fun receipt => receipt.effectId = e ∧
        s.intents.any fun r => r.effectId = receipt.effectId ∧ r.tenantId = tenantId) =
      (s.receipts.filter (·.effectId = e)).filter fun _ =>
        (a.book.ofTenant tenantId e).isSome := by
    rw [List.filter_filter]
    refine List.filter_congr fun receipt _ => ?_
    by_cases he : receipt.effectId = e
    · rw [he, h.any_owned]
      simp
    · simp [he]
  have hrows := h.receipts e
  rw [howned]
  cases hl : a.book.ledger e with
  | none =>
    rw [Book.ofTenant_of_none hl]
    simp
  | some l =>
    rw [hl] at hrows
    rw [Book.ofTenant_of_ledger hl]
    by_cases htenant : l.record.tenantId = tenantId
    · rw [if_pos htenant]
      simpa using hrows
    · rw [if_neg htenant]
      simp

end PostgresTables.Holds

/-! ## Programs -/

section
variable {jsonb : Jsonb} {L : Discipline (postgres jsonb) PostgresBook} {a : PostgresBook}

/-- A query executes one statement, which only reads. -/
theorem safe_query (hL : Governs L) {α : Type} {r : PostgresStatement}
    {f : PostgresTables → r.Response} {rest : r.Response → PostgresProgram α} {reply : α → StoreValue}
    {call : StoreCall}
    (hexec : ∀ oracle view locked, (postgres jsonb).exec r oracle view locked = .ok ⟨f view, [], []⟩)
    (hrest : ∀ s b, s.Holds jsonb b → ∃ result, rest (f s) = PostgresStore.compute result ∧
      match result with
      | .ok value => Answers jsonb b.book call (reply value)
      | .error exc => QueryRaises call exc) :
    Safe L (PostgresStore.execute r >>= rest >>= fun value => pure (reply value)) [] ∅ a
      (Queries jsonb call) := by
  rw [safe_map, safe_bind]
  refine safe_read hexec fun a₁ s₁ _ hholds₁ => ?_
  obtain ⟨result, hresult, hanswer⟩ := hrest s₁ a₁ (hL.holds hholds₁)
  show Safe L (rest (f s₁)) [] ∅ a₁ _
  rw [hresult, safe_ofExcept]
  cases result with
  | ok value => exact ⟨rfl, rfl, hanswer⟩
  | error exc => exact ⟨rfl, rfl, hanswer⟩

theorem forall₂_mapM {α β : Type} {f : α → Except Exc β} {list : List α}
    (h : ∀ x ∈ list, ∃ y, f x = .ok y) :
    ∃ results, list.mapM f = .ok results ∧ List.Forall₂ (fun x y => f x = .ok y) list results := by
  induction list with
  | nil => exact ⟨[], rfl, .nil⟩
  | cons x list ih =>
    obtain ⟨hx, hlist⟩ := List.forall_mem_cons.mp h
    obtain ⟨y, hy⟩ := hx
    obtain ⟨results, hresults, hforall⟩ := ih hlist
    refine ⟨y :: results, ?_, .cons hy hforall⟩
    rw [List.mapM_cons, hy, ok_bind, hresults]
    rfl

theorem storedEvent_eventRow (jsonb : Jsonb) (event : MemoryEvent) :
    PostgresStore.storedEvent (jsonb.eventRow event) = .ok (jsonb.readEvent event) := rfl

theorem receiptReply_tells {row : ReceiptRow} {l : EffectLedger} (h : row.Tells jsonb l) :
    ∃ reply, PostgresStore.receiptReply l.id row = .ok reply ∧ jsonb.readReceipt l = some reply := by
  obtain ⟨metadata, at_, hlast, hrow⟩ := h
  refine ⟨receiptOf l.record (jsonb (normalItems metadata)) at_, ?_, ?_⟩
  · rw [hrow]
    rfl
  · unfold Jsonb.readReceipt
    rw [hlast]
    rfl

theorem safe_get (hL : Governs L) (tenantId e : Str) :
    Safe L (PostgresStore.get tenantId e >>= fun record => pure (.found record)) [] ∅ a
      (Queries jsonb (.get tenantId e)) := by
  refine safe_query hL (fun _ _ _ => rfl) fun s b hs => ?_
  rw [hs.selectOwned]
  cases hl : b.book.ofTenant tenantId e with
  | none =>
    refine ⟨.ok none, rfl, none, rfl, ?_⟩
    rw [hl]
    exact .none
  | some l =>
    obtain ⟨hledger, -⟩ := Option.filter_eq_some_iff.mp hl
    obtain ⟨read, hread⟩ := hs.readable l (Book.mem_of_ledger hledger).1
    refine ⟨.ok (some read), ?_, some read, rfl, ?_⟩
    · show (PostgresStore.compute (jsonb.read l.record) >>= fun record => pure (some record)) = _
      rw [hread]
      rfl
    · rw [hl]
      exact .some hread

theorem safe_list (hL : Governs L) (tenantId : Str) (status : Option EffectStatus)
    (limit offset : Int) :
    Safe L (PostgresStore.list tenantId status limit offset >>= fun records => pure (.effects records))
      [] ∅ a (Queries jsonb (.list tenantId status limit offset)) := by
  refine safe_query hL (fun _ _ _ => rfl) fun s b hs => ?_
  by_cases hoffset : offset < 0
  · refine ⟨.error (.other (str "DataError") (str "OFFSET must not be negative")), ?_,
      .inl ⟨hoffset, rfl⟩⟩
    unfold PostgresTables.selectPage
    rw [if_pos hoffset]
    rfl
  · by_cases hlimit : limit < 0
    · refine ⟨.error (.other (str "DataError") (str "LIMIT must not be negative")), ?_,
        .inr ⟨by omega, hlimit, rfl⟩⟩
      unfold PostgresTables.selectPage
      rw [if_neg hoffset, if_pos hlimit]
      rfl
    · obtain ⟨ledgers, hm, hpage, hlist⟩ := hs.selectPage tenantId status (not_lt.mp hlimit)
        (not_lt.mp hoffset)
      have hreadable : ∀ l ∈ ledgers, ∃ read, jsonb.read l.record = .ok read :=
        fun l hl => hs.readable l (hm l hl)
      obtain ⟨records, hmap, hrecords⟩ := forall₂_mapM hreadable
      refine ⟨.ok records, ?_, not_lt.mp hlimit, not_lt.mp hoffset, records, rfl, ?_⟩
      · rw [hpage]
        show PostgresStore.compute ((ledgers.map jsonb.effectRow).mapM IntentRow.toRecord) = _
        rw [List.mapM_map, ← hmap]
        rfl
      · rw [hlist]
        exact List.forall₂_map_left_iff.mpr hrecords

theorem safe_receipt (hL : Governs L) (tenantId e : Str) :
    Safe L (PostgresStore.receipt tenantId e >>= fun receipt => pure (.receipt receipt)) [] ∅ a
      (Queries jsonb (.receipt tenantId e)) := by
  refine safe_query hL (fun _ _ _ => rfl) fun s b hs => ?_
  have hrows := hs.selectReceipt tenantId e
  cases hl : b.book.ofTenant tenantId e with
  | none =>
    rw [hl] at hrows
    rw [List.forall₂_nil_right_iff.mp hrows]
    refine ⟨.ok none, rfl, ?_⟩
    show StoreValue.receipt none = _
    rw [hl]
    rfl
  | some l =>
    rw [hl, Option.elim_some] at hrows
    obtain ⟨hledger, -⟩ := Option.filter_eq_some_iff.mp hl
    obtain ⟨hm, rfl⟩ := Book.mem_of_ledger hledger
    by_cases hsuccess : l.record.status = .succeeded
    · rw [EffectLedger.success, if_pos hsuccess] at hrows
      obtain ⟨row, rest, htells, hrest, hlist⟩ := List.forall₂_cons_right_iff.mp hrows
      obtain rfl := List.forall₂_nil_right_iff.mp hrest
      obtain ⟨reply, hreply, hreads⟩ := receiptReply_tells htells
      rw [hlist]
      refine ⟨.ok (some reply), ?_, ?_⟩
      · show (PostgresStore.compute (PostgresStore.receiptReply l.id row) >>= fun reply =>
          pure (some reply)) = _
        rw [hreply]
        rfl
      · show StoreValue.receipt (some reply) = _
        rw [hl, Option.bind_some, hreads]
    · rw [EffectLedger.success, if_neg hsuccess] at hrows
      rw [List.forall₂_nil_right_iff.mp hrows]
      refine ⟨.ok none, rfl, ?_⟩
      have hnone : InMemoryStore.lastSuccess l.events = none :=
        Option.not_isSome_iff_eq_none.mp fun h => hsuccess ((hs.evident l hm).mp h)
      show StoreValue.receipt none = _
      rw [hl, Option.bind_some, Jsonb.readReceipt, hnone]
      rfl

theorem safe_events (hL : Governs L) (e : Str) :
    Safe L (PostgresStore.events e >>= fun events => pure (.events events)) [] ∅ a
      (Queries jsonb (.events e)) := by
  refine safe_query hL (fun _ _ _ => rfl) fun s b hs => ?_
  have hrows : ((b.book.eventsOf e).map jsonb.eventRow).mapM PostgresStore.storedEvent =
      .ok ((b.book.eventsOf e).map jsonb.readEvent) := by
    rw [List.mapM_map]
    exact Refinement.mapM_ok fun event _ => storedEvent_eventRow jsonb event
  rw [hs.selectEvents]
  refine ⟨.ok ((b.book.eventsOf e).map jsonb.readEvent), ?_, rfl⟩
  rw [hrows]

theorem PostgresTables.Holds.attemptCount {s : PostgresTables} (h : s.Holds jsonb a) (e : Str) :
    (s.attempts.filter (·.effectId = e)).length = (a.book.attemptsOf e).length := by
  rw [h.attempts, List.length_map]

end
end EffectBroker
