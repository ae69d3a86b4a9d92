import EffectBroker.SqliteCalls

/-!
# What the SQLite store reads

Queries read the book in the tables: payloads and the data of events are normalized, and
durations have been through floats.  `serve_agrees` puts all calls together.
-/
namespace EffectBroker
open Python Refinement

/-! ## Normalized dictionaries -/

/-- The items of a dictionary that was stored as JSON. -/
def normalItems (items : Items) : Items := (normalizeItems items).insertionSort itemLe

theorem normalize_dict (items : Items) : Python.normalize (.dict items) = .dict (normalItems items) := rfl

theorem mem_normalizeItems {items : Items} {key value : Value} :
    (key, value) ∈ normalizeItems items ↔ ∃ v, (key, v) ∈ items ∧ Python.normalize v = value := by
  induction items with
  | nil => simp [normalizeItems]
  | cons item items ih =>
    obtain ⟨k, v⟩ := item
    rw [normalizeItems, List.mem_cons, ih]
    simp only [List.mem_cons, Prod.mk.injEq, or_and_right, exists_or]
    refine or_congr ?_ Iff.rfl
    constructor
    · rintro ⟨rfl, rfl⟩
      exact ⟨v, ⟨rfl, rfl⟩, rfl⟩
    · rintro ⟨_, ⟨rfl, rfl⟩, rfl⟩
      exact ⟨rfl, rfl⟩

theorem keys_normalizeItems (items : Items) :
    (normalizeItems items).map Prod.fst = items.map Prod.fst := by
  induction items with
  | nil => rfl
  | cons item items ih =>
    rw [normalizeItems, List.map_cons, ih]
    rfl

theorem get?_eq_some {items : Items} (hkeys : (items.map Prod.fst).Nodup) {key : Str} {value : Value} :
    items.get? key = some value ↔ (.str key, value) ∈ items := by
  unfold Items.get?
  constructor
  · intro h
    obtain ⟨⟨k, v⟩, hfind, rfl⟩ := Option.map_eq_some_iff.mp h
    have hk := List.find?_some hfind
    have hm := List.mem_of_find?_eq_some hfind
    cases k <;> try cases hk
    obtain rfl := eq_of_beq hk
    exact hm
  · intro h
    have hfind : items.find? (fun p => p.1.isStr key) = some (.str key, value) := by
      cases hfind : items.find? (fun p => p.1.isStr key) with
      | none =>
        exact absurd (List.find?_eq_none.mp hfind _ h) (by simp [Value.isStr])
      | some p =>
        obtain ⟨k, v⟩ := p
        have hk := List.find?_some hfind
        have hm := List.mem_of_find?_eq_some hfind
        cases k <;> try cases hk
        obtain rfl := eq_of_beq hk
        rw [List.inj_on_of_nodup_map hkeys hm h rfl]
    rw [hfind]
    rfl

theorem get?_normalItems {items : Items} (hkeys : (items.map Prod.fst).Nodup) (key : Str) :
    (normalItems items).get? key = (items.get? key).map Python.normalize := by
  have hperm := List.perm_insertionSort itemLe (normalizeItems items)
  have hnormal : ((normalItems items).map Prod.fst).Nodup := by
    refine (hperm.map Prod.fst).nodup_iff.mpr ?_
    rw [keys_normalizeItems]
    exact hkeys
  refine Option.ext fun value => ?_
  rw [get?_eq_some hnormal, Option.map_eq_some_iff]
  refine hperm.mem_iff.trans (mem_normalizeItems.trans (exists_congr fun v => ?_))
  rw [get?_eq_some hkeys]

/-! ## Events -/

/-- An event as it is read. -/
def readEvent (event : MemoryEvent) : StoredEvent :=
  { event.stored with data := normalItems event.data }

theorem stored_eventRow {event : MemoryEvent} (h : Storable (.dict event.data)) :
    (eventRow event).stored = .ok (readEvent event) := by
  unfold SqliteEventRow.stored eventRow
  rw [parseTime_isoformat, ok_bind, h.parse, ok_bind, normalize_dict]
  rfl

namespace SqliteStore
variable {s : SqliteStore} {secrets : Secrets} {b : Book}

theorem Holds.eventRows (h : s.Holds secrets b) (e : Str) :
    s.eventRows e = (b.eventsOf e).map eventRow := by
  unfold SqliteStore.eventRows
  rw [h.events]
  refine List.Pairwise.insertionSort_eq (List.pairwise_map.mpr ?_)
  cases hl : b.ledger e with
  | none =>
    rw [Book.eventsOf, hl]
    exact .nil
  | some l =>
    rw [Book.eventsOf, hl]
    have hnumbered := (h.good.sound l (Book.mem_of_ledger hl).1).story.numbered
    have hsorted : (l.events.map MemoryEvent.sequence).Pairwise (· ≤ ·) := by
      rw [hnumbered]
      exact (List.pairwise_lt_range' 1).imp fun hlt => hlt.le
    exact List.pairwise_map.mp hsorted

theorem Holds.event (h : s.Holds secrets b) {e : Str} {event : MemoryEvent} (hm : event ∈ b.eventsOf e) :
    Storable (.dict event.data) ∧ (event.eventType = .transition →
      ∃ source target data, event.data = InMemoryStore.transitionData source target data) := by
  cases hl : b.ledger e with
  | none =>
    rw [Book.eventsOf, hl] at hm
    cases hm
  | some l =>
    rw [Book.eventsOf, hl] at hm
    have hmem := (Book.mem_of_ledger hl).1
    exact ⟨((h.stored l hmem).events event hm).2, (h.good.sound l hmem).moves event hm⟩

end SqliteStore

/-! ## Receipts -/

/-- Whether an event tells of a success. -/
def tellsSuccess (event : MemoryEvent) : Bool :=
  (event.data.get? (str "to")).any (Value.isStr EffectStatus.succeeded.value)

/-- The first success among rows of transitions. -/
theorem firstSuccess_eventRow (events : List MemoryEvent)
    (h : ∀ event ∈ events, Storable (.dict event.data) ∧
      ∃ source target data, event.data = InMemoryStore.transitionData source target data) :
    SqliteStore.firstSuccess (events.map eventRow) = .ok ((events.find? tellsSuccess).map fun event =>
      (normalItems (((event.data.get? (str "metadata")).bind Value.items?).getD []),
        event.at_.isoformat)) := by
  induction events with
  | nil => rfl
  | cons event events ih =>
    obtain ⟨⟨hstored, source, target, data, hdata⟩, hrest⟩ := List.forall_mem_cons.mp h
    have hkeys := transitionData_keys source target data
    have hto : (normalItems event.data).get? (str "to") = some (.str target.value) := by
      rw [hdata, get?_normalItems hkeys]
      rfl
    have hmetadata : (normalItems event.data).get? (str "metadata") =
        some (.dict (normalItems data)) := by
      rw [hdata, get?_normalItems hkeys]
      rfl
    have hparse : parseJson (eventRow event).dataJson = .ok (.dict (normalItems event.data)) :=
      hstored.parse
    have htells : tellsSuccess event = (target.value == EffectStatus.succeeded.value) := by
      rw [tellsSuccess, hdata]
      rfl
    rw [List.map_cons, SqliteStore.firstSuccess, hparse, ok_bind]
    show (if ((normalItems event.data).get? (str "to")).any _ = true then _ else _) = _
    rw [hto, hmetadata, List.find?_cons, htells]
    by_cases hsuccess : (target.value == EffectStatus.succeeded.value) = true
    · rw [hsuccess]
      simp only [Option.any_some, Value.isStr, hsuccess, if_true, Option.map_some]
      rw [hdata]
      rfl
    · rw [Bool.eq_false_iff.mpr hsuccess]
      simp only [Option.any_some, Value.isStr, hsuccess]
      exact ih hrest

/-- A receipt, and what is read of it. -/
def ReadsReceipt (p q : Items) : Prop :=
  ∃ record metadata at_, Storable (.dict metadata) ∧ q = receiptOf record metadata at_ ∧
    p = receiptOf record (normalItems metadata) at_

/-- The metadata of a transition that can be stored can be stored too. -/
theorem Storable.metadata {source target : EffectStatus} {data : Items}
    (h : Storable (.dict (InMemoryStore.transitionData source target data))) :
    Storable (.dict data) := by
  obtain ⟨-, -, -, hwf, -⟩ := h.wellFormed
  obtain ⟨json, hjson⟩ := h.written
  refine ⟨hwf, ?_⟩
  obtain ⟨parts, hparts, -⟩ := Option.map_eq_some_iff.mp hjson
  unfold InMemoryStore.transitionData at hparts
  generalize Value.dict data = metadata at hparts ⊢
  cases hdata : Python.dumps metadata with
  | some json => exact ⟨json, rfl⟩
  | none => simp [dumpsItems, Python.dumps, hdata, text] at hparts

section
variable {fit : Prop} {s : SqliteStore} {secrets : Secrets} {b : Book}

theorem find?_tenant (heffects : s.effects = b.map effectRow) (hb : b.Unique) (tenantId e : Str) :
    s.effects.find? (fun row => row.tenantId = tenantId ∧ row.effectId = e) =
      (b.ofTenant tenantId e).map effectRow := by
  rw [heffects, List.find?_map]
  refine congrArg (Option.map effectRow) ?_
  show b.find? (fun l => decide (l.record.tenantId = tenantId ∧ l.id = e)) = _
  unfold Book.ofTenant
  cases hl : b.ledger e with
  | none =>
    refine List.find?_eq_none.mpr fun l hm => ?_
    have hne := Book.ledger_eq_none.mp hl l hm
    simp [hne]
  | some l =>
    obtain ⟨hm, rfl⟩ := Book.mem_of_ledger hl
    have honly : ∀ l' ∈ b, l'.id = l.id → l' = l := fun l' hm' he =>
      List.inj_on_of_nodup_map hb.ids hm' hm he
    by_cases htenant : l.record.tenantId = tenantId
    · rw [Option.filter_some, if_pos (decide_eq_true htenant)]
      cases hfind : b.find? (fun l' => decide (l'.record.tenantId = tenantId ∧ l'.id = l.id)) with
      | none => exact absurd (List.find?_eq_none.mp hfind l hm) (by simp [htenant])
      | some l' =>
        have hfound := List.find?_some hfind
        rw [honly l' (List.mem_of_find?_eq_some hfind) (of_decide_eq_true hfound).2]
    · rw [Option.filter_some, if_neg (by simpa using htenant)]
      refine List.find?_eq_none.mpr fun l' hm' h => ?_
      obtain ⟨htenant', hid⟩ := of_decide_eq_true h
      exact htenant (honly l' hm' hid ▸ htenant')

theorem agrees_get (h : s.Holds secrets b) (tenantId e : Str)
    (hfit : fit → Python.Encodable tenantId ∧ Python.Encodable e ∧ ∀ l ∈ b, l.Roomy) :
    Agrees fit (Option.Rel fun read l => Reads read l.record) (s.get tenantId e)
      (.ok (b.ofTenant tenantId e)) := by
  unfold SqliteStore.get
  refine agrees_bindParams (fun hf => ?_) fun _ => ?_
  · exact List.forall_mem_cons.mpr ⟨(hfit hf).1, List.forall_mem_singleton.mpr (hfit hf).2.1⟩
  rw [find?_tenant h.effects h.good.toUnique]
  cases hl : b.ofTenant tenantId e with
  | none => exact .ok .none
  | some l =>
    have hm := (Book.mem_of_ledger (Book.ofTenant_mem hl).1).1
    simp only [Option.map_some]
    rw [toRecord_effectRow (h.arguments l hm)]
    have hread : Agrees fit (fun read l => Reads read l.record) (sqliteRead l.record) (.ok l) :=
      agrees_read (fun hf => ((hfit hf).2.2 l hm).readable) fun _ h => h
    exact hread.map (g := some) fun _ _ h => .some h

theorem rel_record {p : Option EffectRecord} {q : Option EffectLedger}
    (h : Option.Rel (fun read l => Reads read l.record) p q) :
    Option.Rel Reads p (q.map EffectLedger.record) := by
  cases h with
  | none => exact .none
  | some hread => exact .some hread

theorem agrees_receipt (h : s.Holds secrets b) (tenantId e : Str)
    (hfit : fit → Python.Encodable tenantId ∧ Python.Encodable e ∧ ∀ l ∈ b, l.Roomy) :
    Agrees fit (Option.Rel ReadsReceipt) (s.receipt tenantId e)
      (.ok ((b.ofTenant tenantId e).bind EffectLedger.receipt)) := by
  unfold SqliteStore.receipt
  refine (agrees_get h tenantId e hfit).bind_ok fun found hfound => ?_
  cases hl : b.ofTenant tenantId e with
  | none =>
    rw [hl] at hfound
    cases hfound
    exact .ok .none
  | some l =>
    rw [hl] at hfound
    cases hfound with
    | some hread =>
      obtain ⟨hledger, -⟩ := Book.ofTenant_mem hl
      obtain ⟨-, hid⟩ := Book.mem_of_ledger hledger
      obtain ⟨keyRetention, settlementBound, rfl⟩ := sqliteRead_ok hread
      have hevents : b.eventsOf e = l.events := by
        rw [Book.eventsOf, hledger]
        rfl
      have hrows : ((s.eventRows e).filter (·.eventType = EventType.transition.value)).reverse =
          (l.events.filter (·.eventType = .transition)).reverse.map eventRow := by
        rw [h.eventRows, hevents, List.filter_map, ← List.map_reverse]
        refine congrArg (fun events => (List.reverse events).map eventRow)
          (List.filter_congr fun event _ => ?_)
        exact decide_eq_decide.mpr EventType.value_injective.eq_iff
      have hfirst := firstSuccess_eventRow (l.events.filter (·.eventType = .transition)).reverse
        fun event hm => by
          obtain ⟨hm, htype⟩ := List.mem_filter.mp (List.mem_reverse.mp hm)
          have hevent := h.event (e := e) (hevents ▸ hm)
          exact ⟨hevent.1, hevent.2 (of_decide_eq_true htype)⟩
      have hlast : (l.events.filter (·.eventType = .transition)).reverse.find? tellsSuccess =
          l.events.reverse.find? fun event => event.eventType == .transition && tellsSuccess event := by
        rw [← List.filter_reverse, List.find?_filter]
        refine congrArg (l.events.reverse.find? ·) (funext fun event => ?_)
        rw [Bool.eq_iff_iff]
        simp
      simp only [hrows, hfirst, hlast, ok_bind]
      show Agrees fit _ _ (.ok l.receipt)
      unfold EffectLedger.receipt InMemoryStore.lastSuccess
      change Agrees fit _ (.ok (Option.map _ (Option.map _ _)))
        (.ok (Option.map _ (Option.map _ (l.events.reverse.find? fun event =>
          event.eventType == .transition && tellsSuccess event))))
      cases hlastEvent : l.events.reverse.find? fun event =>
          event.eventType == .transition && tellsSuccess event with
      | none => exact .ok .none
      | some event =>
        have hfound := List.find?_some hlastEvent
        have htype := (Bool.and_eq_true_iff.mp hfound).1
        have hmem : event ∈ b.eventsOf e := by
          rw [hevents]
          exact List.mem_reverse.mp (List.mem_of_find?_eq_some hlastEvent)
        have hevent := h.event hmem
        obtain ⟨source, target, data, hdata⟩ := hevent.2 (beq_iff_eq.mp htype)
        have hstored : Storable (.dict data) := (hdata ▸ hevent.1).metadata
        refine .ok (.some ⟨l.record, data, event.at_, hstored, ?_, ?_⟩)
        · simp only [hdata]
          rfl
        · simp only [hdata, ← hid]
          rfl

theorem pageOf_map {α β : Type} (f : α → β) (list : List α) (limit offset : Int) :
    SqliteStore.page (list.map f) limit offset = (pageOf list limit offset).map f := by
  unfold SqliteStore.page pageOf
  split <;> simp

theorem agrees_list (h : s.Holds secrets b) (tenantId : Str) (status : Option EffectStatus)
    (limit offset : Int) (hfit : fit → Python.Encodable tenantId ∧ SqliteParam.Fits (.int limit) ∧
      SqliteParam.Fits (.int offset) ∧ ∀ l ∈ b, l.Roomy) :
    Agrees fit (List.Forall₂ Reads) (s.list tenantId status limit offset)
      (.ok (b.list tenantId status limit offset)) := by
  unfold SqliteStore.list Book.list
  refine agrees_bindParams (fun hf => ?_) fun _ => ?_
  · obtain ⟨htenant, hlimit, hoffset, -⟩ := hfit hf
    refine List.forall_mem_append.mpr ⟨List.forall_mem_cons.mpr ⟨htenant, ?_⟩,
      List.forall_mem_cons.mpr ⟨hlimit, List.forall_mem_singleton.mpr hoffset⟩⟩
    refine List.forall_mem_map.mpr fun status _ => ?_
    exact encodable_status status
  · have hrows : (s.effects.filter fun row => row.tenantId = tenantId &&
        status.all (fun status => row.status = status.value)) =
        (b.filter fun l => l.record.tenantId = tenantId &&
          status.all (fun status => l.record.status = status)).map effectRow := by
      rw [h.effects, List.filter_map]
      refine congrArg (List.map effectRow) (List.filter_congr fun l _ => ?_)
      cases status with
      | none => rfl
      | some status =>
        show (_ && decide (l.record.status.value = status.value)) = (_ && decide (_ = _))
        rw [decide_eq_decide.mpr EffectStatus.value_injective.eq_iff]
        rfl
    simp only [hrows, sort_effectRow, pageOf_map, Book.filter_queue h.good.toUnique]
    refine Agrees.mapM ?_
    rw [List.forall₂_map_left_iff, List.forall₂_map_right_iff, List.forall₂_same]
    intro l hl
    have hm := (List.mem_filter.mp (Book.mem_queue.mp (Book.mem_pageOf hl))).1
    rw [toRecord_effectRow (h.arguments l hm)]
    exact agrees_read (fun hf => ((hfit hf).2.2.2 l hm).readable) fun _ h => h

theorem agrees_events (h : s.Holds secrets b) (e : Str) (hfit : fit → Python.Encodable e) :
    Agrees fit (fun p q => p = q.map readEvent) (s.eventsOf e) (.ok (b.eventsOf e)) := by
  unfold SqliteStore.eventsOf
  refine agrees_bindParams (fun hf => List.forall_mem_singleton.mpr (hfit hf)) fun _ => ?_
  rw [h.eventRows]
  have hall : ((b.eventsOf e).map eventRow).mapM SqliteEventRow.stored =
      .ok ((b.eventsOf e).map readEvent) := by
    rw [List.mapM_map]
    exact mapM_ok fun event hm => stored_eventRow (h.event hm).1
  rw [hall]
  exact .ok rfl

theorem agrees_attemptCount (h : s.Holds secrets b) (e : Str) (hfit : fit → Python.Encodable e) :
    Agrees fit (fun p (q : Nat) => p = q) (s.attemptCount e) (.ok (b.attemptsOf e).length) := by
  unfold SqliteStore.attemptCount
  refine agrees_bindParams (fun hf => List.forall_mem_singleton.mpr (hfit hf)) fun _ => ?_
  rw [h.attempts, List.length_map]
  exact .ok rfl

/-! ## All calls -/

/-- What a book replies, and what is read of it. -/
inductive ReadsValue : StoreValue → StoreValue → Prop
  | reservation {p q} : ReadsReservation p q → ReadsValue (.reservation p) (.reservation q)
  | effects {p q} : List.Forall₂ Reads p q → ReadsValue (.effects p) (.effects q)
  | attemptId {a} : ReadsValue (.attemptId a) (.attemptId a)
  | effect {p q} : Reads p q → ReadsValue (.effect p) (.effect q)
  | found {p q} : Option.Rel Reads p q → ReadsValue (.found p) (.found q)
  | receipt {p q} : Option.Rel ReadsReceipt p q → ReadsValue (.receipt p) (.receipt q)
  | events {q : List MemoryEvent} : (∀ event ∈ q, Storable (.dict event.data)) →
      ReadsValue (.events (q.map readEvent)) (.events (q.map MemoryEvent.stored))
  | number {n} : ReadsValue (.number n) (.number n)

/-- What a call is given is a value of Python. -/
def TimedCall.WellFormed (c : TimedCall) : Prop :=
  match c.call with
  | .reserve _ request _ => request.arguments.WellFormed
  | .transition _ _ _ data => (Value.dict data).WellFormed
  | _ => True

/-- A call has nothing that the tables cannot hold, and the book has nothing that cannot be
read from them. -/
def Fits (secrets : Secrets) (b : Book) (c : TimedCall) : Prop :=
  (∀ l ∈ b, l.Roomy) ∧
  match c.call with
  | .reserve tenantId request contract => ∀ record,
    newRecord secrets.1 secrets.2 c.now c.uuid tenantId request contract = .ok record →
      ∀ param ∈ (effectRow (.reserved record)).params, param.Fits
  | .claimDue workerId now _ limit => Book.picks b.queue now limit ≠ [] → Python.Encodable workerId
  | .startAttempt e expectedVersion workerId =>
    Python.Encodable e ∧ ((∃ l, b.current e expectedVersion = .ok l) → Python.Encodable workerId)
  | .transition e expectedVersion target data =>
    Python.Encodable e ∧ ((∃ result, b.transition c.now e expectedVersion target data = .ok result) →
      Storable (.dict data) ∧ Python.Encodable (jsonOf (.dict data)))
  | .get tenantId e | .receipt tenantId e => Python.Encodable tenantId ∧ Python.Encodable e
  | .list tenantId _ limit offset =>
    Python.Encodable tenantId ∧ SqliteParam.Fits (.int limit) ∧ SqliteParam.Fits (.int offset)
  | .events e | .attemptCount e => Python.Encodable e
  | .count => True

/-- The store does what the book does: it replies what is read, or raises the same, or
raises because the call does not fit. -/
inductive Follows (fit : Prop) (secrets : Secrets) (s : SqliteStore) (b : Book) :
    Except Exc StoreValue × SqliteStore → Except Exc StoreValue × Book → Prop
  | ok {p q s' b'} : ReadsValue p q → s'.Holds secrets b' →
      Follows fit secrets s b (.ok p, s') (.ok q, b')
  | error {exc} : Follows fit secrets s b (.error exc, s) (.error exc, b)
  | unfit {exc out} : ¬fit → Follows fit secrets s b (.error exc, s) out

theorem follows_committed {α β : Type} {R : α × SqliteStore → β × Book → Prop}
    {x : Except Exc (α × SqliteStore)} {y : Except Exc (β × Book)} {reply : α → StoreValue}
    {reply' : β → StoreValue} (h : Agrees fit R x y)
    (hrel : ∀ p q, R p q → ReadsValue (reply p.1) (reply' q.1) ∧ p.2.Holds secrets q.2) :
    Follows fit secrets s b (s.committed reply x) (b.outcome reply' y) := by
  cases h with
  | ok hr => exact .ok (hrel _ _ hr).1 (hrel _ _ hr).2
  | error => exact .error
  | unfit hn => exact .unfit hn

theorem follows_query {α β : Type} {R : α → β → Prop} {x : Except Exc α} {q : β}
    {reply : α → StoreValue} {reply' : StoreValue} (hs : s.Holds secrets b)
    (h : Agrees fit R x (.ok q : Except Exc β)) (hrel : ∀ p, R p q → ReadsValue (reply p) reply') :
    Follows fit secrets s b (x.map reply, s) (.ok reply', b) := by
  cases h with
  | ok hr => exact .ok (hrel _ hr) hs
  | unfit hn => exact .unfit hn

/-- **The SQLite store keeps a book.** -/
theorem serve_follows (h : s.Holds secrets b) {c : TimedCall} (hwf : c.WellFormed) :
    Follows (Fits secrets b c) secrets s b (s.serve c) (b.serve secrets.1 secrets.2 c) := by
  obtain ⟨call, now, uuid⟩ := c
  cases call with
  | reserve tenantId request contract =>
    have hsecrets := h.secrets
    subst hsecrets
    exact follows_committed (agrees_reserve h now uuid tenantId request contract hwf id)
      fun p q hpq => ⟨.reservation hpq.1, hpq.2⟩
  | claimDue workerId now' leaseFor limit =>
    refine follows_committed (agrees_claimDue h workerId now' leaseFor limit fun hf l hl => ?_)
      fun p q hpq => ⟨.effects hpq.1, hpq.2⟩
    have hroomy := hf.1 l (Book.mem_queue.mp (Book.mem_picks hl).1)
    exact ⟨hroomy.readable, hroomy.named, hroomy.events, hf.2 (List.ne_nil_of_mem hl)⟩
  | startAttempt e expectedVersion workerId =>
    refine follows_committed (agrees_startAttempt h now e expectedVersion workerId
      fun hf => ⟨hf.2.1, hf.1, hf.2.2⟩) fun p q hpq => ⟨?_, hpq.2⟩
    rw [hpq.1]
    exact .attemptId
  | transition e expectedVersion target data =>
    exact follows_committed (agrees_transition h now e expectedVersion target data hwf
      fun hf => ⟨hf.2.1, hf.1, hf.2.2⟩) fun p q hpq => ⟨.effect hpq.1, hpq.2⟩
  | get tenantId e =>
    exact follows_query h (agrees_get h tenantId e fun hf => ⟨hf.2.1, hf.2.2, hf.1⟩)
      fun p hp => .found (rel_record hp)
  | list tenantId status limit offset =>
    exact follows_query h (agrees_list h tenantId status limit offset
      fun hf => ⟨hf.2.1, hf.2.2.1, hf.2.2.2, hf.1⟩) fun p hp => .effects hp
  | receipt tenantId e =>
    exact follows_query h (agrees_receipt h tenantId e fun hf => ⟨hf.2.1, hf.2.2, hf.1⟩)
      fun p hp => .receipt hp
  | events e =>
    refine follows_query h (agrees_events h e fun hf => hf.2) fun p hp => ?_
    rw [hp]
    exact .events fun event hm => (h.event hm).1
  | attemptCount e =>
    refine follows_query h (agrees_attemptCount h e fun hf => hf.2) fun p hp => ?_
    rw [hp]
    exact .number
  | count =>
    show Follows _ _ _ _ (.ok (.number s.effects.length), s) (.ok (.number b.length), b)
    rw [h.effects, List.length_map]
    exact .ok .number h

end
end EffectBroker
