import EffectBroker.EncodedBytes
import EffectBroker.EventStory
import EffectBroker.MemoryBook
import EffectBroker.PlainJson
import EffectBroker.System
import EffectBroker.TwinBooks

/-!
# The SQLite store simulates the in-memory store

Served the same calls, the two stores reply the same up to effect ids and readings of the
wall clock.  They keep twin books, so they do unless one of them cannot hold or compute
what the other can: a lease that ends outside the range of `datetime`, or values that
SQLite cannot bind.
-/
namespace EffectBroker
open Python Refinement

/-! ## What SQLite can bind -/

theorem encodable_hexdigest (bytes : Bytes) : Python.Encodable (hexdigest bytes) := by
  intro c hc
  obtain ⟨b, -, hm⟩ := List.mem_flatMap.mp hc
  rcases List.mem_cons.mp hm with rfl | hm
  · exact isSurrogate_ofChar _
  · rw [List.mem_singleton.mp hm]
    exact isSurrogate_ofChar _

theorem isSurrogate_base64Char (n : Nat) : isSurrogate (base64Char n) = false := by
  unfold base64Char
  repeat' split
  all_goals exact isSurrogate_ofChar _

theorem encodable_urlsafeBase64 : ∀ bytes : Bytes, Python.Encodable (urlsafeBase64 bytes)
  | [] => encodable_nil
  | [_] | [_, _] => by
    simp only [urlsafeBase64, Python.Encodable, List.forall_mem_cons, isSurrogate_base64Char, true_and]
    exact List.forall_mem_nil _
  | _ :: _ :: _ :: rest => by
    rw [urlsafeBase64, encodable_append]
    refine ⟨?_, encodable_urlsafeBase64 rest⟩
    simp only [Python.Encodable, List.forall_mem_cons, isSurrogate_base64Char, true_and]
    exact List.forall_mem_nil _

/-- What a request hash is computed from can be encoded. -/
theorem encodable_of_requestHash {hashes : Hashes} {tool contractName contractVersion hash : Str}
    {arguments : Value} (harguments : Storable arguments)
    (h : requestHash hashes tool arguments contractName contractVersion = .ok hash) :
    Python.Encodable tool ∧ Python.Encodable (jsonOf arguments) ∧ Python.Encodable contractName ∧
      Python.Encodable contractVersion ∧ Python.Encodable hash := by
  obtain ⟨canonical, hcanonical, h⟩ := bind_eq_ok.mp h
  obtain ⟨bytes, hbytes, h⟩ := bind_eq_ok.mp h
  cases h
  have hstorable : ∀ item ∈ [(str "tool", Value.str tool), (str "arguments", arguments),
      (str "contract_name", .str contractName), (str "contract_version", .str contractVersion)],
      Storable item.2 := by
    simp only [List.forall_mem_cons, storable_str, harguments, true_and]
    exact List.forall_mem_nil _
  have hjson : jsonOf (.dict (dictWith [(str "tool", Value.str tool),
      (str "arguments", arguments), (str "contract_name", .str contractName),
      (str "contract_version", .str contractVersion)])) = canonical := by
    have hdumps : dumps (hashedRequest tool arguments contractName contractVersion) =
        some canonical := canonicalJson_eq_ok.mp hcanonical
    show (dumps (hashedRequest tool arguments contractName contractVersion)).getD [] = canonical
    rw [hdumps]
    rfl
  have hall := encodable_of_encode hbytes
  rw [← hjson, encodable_json_dict _ hstorable] at hall
  simp only [List.forall_mem_cons, encodable_json_str] at hall
  exact ⟨hall.1.2, hall.2.1.2, hall.2.2.1.2, hall.2.2.2.1.2, encodable_hexdigest _⟩

/-- The row of a new effect can be bound if the text that no hash covers can. -/
theorem newRecord_fits {hashes : Hashes} {tenantKeyProvider : TenantKeyProvider} {now : Datetime}
    {uuid tenantId : Str} {request : EffectRequest} {contract : EffectContract} {record : EffectRecord}
    (h : newRecord hashes tenantKeyProvider now uuid tenantId request contract = .ok record)
    (hwf : request.arguments.WellFormed) (huuid : Python.Encodable uuid)
    (hrequested : Python.Encodable request.requestedBy) (htrace : ∀ id ∈ request.traceId, Python.Encodable id)
    (hretry : SqliteParam.Fits (.int contract.retryLimit)) :
    ∀ param ∈ (effectRow (.reserved record)).params, param.Fits := by
  obtain ⟨digest, tenantKey, key, hdigest, -, hkey, rfl⟩ := newRecord_ok h
  have harguments : Storable request.arguments := ⟨hwf, dumps_of_requestHash hdigest⟩
  obtain ⟨htool, hjson, hname, hversion, hhash⟩ := encodable_of_requestHash harguments hdigest
  obtain ⟨message, hmessage, hkey⟩ := bind_eq_ok.mp hkey
  cases hkey
  have hidentity := encodable_append.mp (encodable_of_encode hmessage)
  have htenant := (encodable_append.mp hidentity.1).1
  have hsafety : Python.Encodable contract.safety.value := by cases contract.safety <;> exact encodable_str _
  have hid : Python.Encodable (str "eff_" ++ uuid) := encodable_append.mpr ⟨encodable_str _, huuid⟩
  have hzero : SqliteParam.Fits (.int (0 : Nat)) := ⟨by decide, by decide⟩
  refine List.forall_mem_append.mpr ⟨List.forall_mem_append.mpr ⟨?_, ?_⟩, ?_⟩
  · simp only [List.forall_mem_cons]
    exact ⟨hid, htenant, hidentity.2, htool, hjson, hrequested, fun _ h => nomatch h⟩
  · exact List.forall_mem_map.mpr fun id hm => htrace id (Option.mem_toList.mp hm)
  · simp only [List.forall_mem_cons]
    exact ⟨hhash, encodable_urlsafeBase64 _, hname, hversion, hsafety, hretry,
      encodable_status .prepared, hzero, Datetime.encodable_isoformat now,
      Datetime.encodable_isoformat now, fun _ h => nomatch h⟩

/-! ## Two stores that serve the same calls -/

/-- The ids of the rows, in the order in which they were inserted. -/
def SqliteStore.ids (s : SqliteStore) : List Str := s.effects.map SqliteEffectRow.effectId

def TimedCall.IsReserve (c : TimedCall) : Prop :=
  ∃ tenantId request contract, c.call = .reserve tenantId request contract

/-- The texts that SQLite binds whenever it serves a call. -/
def StoreCall.texts : StoreCall → List Str
  | .reserve .. | .claimDue .. | .count => []
  | .startAttempt effectId .. | .transition effectId .. | .events effectId | .attemptCount effectId =>
    [effectId]
  | .get tenantId effectId | .receipt tenantId effectId => [tenantId, effectId]
  | .list tenantId .. => [tenantId]

/-- The calls that two stores have served, newest first. -/
abbrev TwinLog := List (Served InMemoryStore × Served SqliteStore)

/-- What is promised of the next call of both stores: it is the same up to effect ids, of
plain JSON and whole durations; pages start somewhere, ids are new, and reservations are
later than those before. -/
structure Promised (log : TwinLog) (s : InMemoryStore) (s' : SqliteStore) (c c' : TimedCall) : Prop where
  same : TwinCall s.records.keys s'.ids c.call c'.call
  wellFormed : c.WellFormed
  plain : c.call.Plain
  page : ∀ tenantId status limit offset, c.call = .list tenantId status limit offset →
    0 ≤ limit ∧ 0 ≤ offset
  fresh : str "eff_" ++ c'.uuid ∉ s'.ids
  encodable : Python.Encodable c'.uuid
  increasing : c.IsReserve → ∀ x ∈ log, x.1.call.IsReserve → x.1.call.now < c.now ∧ x.2.call.now < c'.now

/-- SQLite can bind what a call brings, the ends of leases are in the range of `datetime`,
and no effect has all the events or attempts that 64 bits can number. -/
def CanServe (s : InMemoryStore) (c c' : TimedCall) : Prop :=
  (∀ events ∈ s.events.values, events.length + 1 < 2 ^ 63) ∧
  (∀ attempts ∈ s.attempts.values, attempts.length + 1 < 2 ^ 63) ∧
  (∀ text ∈ c'.call.texts, Python.Encodable text) ∧
  match c.call with
  | .reserve tenantId request contract =>
    (∃ record, newRecord s.hashes s.tenantKeyProvider c'.now c'.uuid tenantId request contract =
      .ok record) → Python.Encodable request.requestedBy ∧ (∀ id ∈ request.traceId, Python.Encodable id) ∧
        SqliteParam.Fits (.int contract.retryLimit)
  | .claimDue workerId now leaseFor limit =>
    0 < limit → now.add leaseFor ≠ none ∧
      ((∃ item ∈ s.records.items, s.dueAt now item = true) → Python.Encodable workerId)
  | .startAttempt e expectedVersion workerId =>
    (∃ record, s.recordForUpdate e expectedVersion = .ok record) → Python.Encodable workerId
  | .transition e expectedVersion target data =>
    (∃ record, s.recordForUpdate e expectedVersion = .ok record ∧ isAllowed record.status target) →
      Python.Encodable (jsonOf (.dict data))
  | .list _ _ limit offset => SqliteParam.Fits (.int limit) ∧ SqliteParam.Fits (.int offset)
  | .get .. | .receipt .. | .events _ | .attemptCount _ | .count => True

section
variable (P : InMemoryStore → TimedCall → TimedCall → Prop) (hashes : Hashes)
  (tenantKeyProvider : TenantKeyProvider)

/-- Both stores serve the same calls from the start, each of which meets `P`. -/
inductive TwinRun : TwinLog → InMemoryStore → SqliteStore → Prop
  | start : TwinRun [] (.initial hashes tenantKeyProvider) (.initial hashes tenantKeyProvider)
  | call {log s s'} (c c' : TimedCall) : Promised log s s' c c' → P s c c' → TwinRun log s s' →
      TwinRun ((⟨c, (s.serve c).1, (s.serve c).2⟩, ⟨c', (s'.serve c').1, (s'.serve c').2⟩) :: log)
        (s.serve c).2 (s'.serve c').2

end

/-- Two readings of the clock: the same time, or the times of one call. -/
def SameTime (log : TwinLog) (t t' : Datetime) : Prop :=
  t = t' ∨ ∃ x ∈ log, x.1.call.now = t ∧ x.2.call.now = t'

/-- The replies of both stores are equal up to effect ids and readings of the clock, or they
raise exceptions of one class. -/
def SameReplies (pairs : List (Str × Str)) (log : TwinLog) : Prop :=
  ∀ x ∈ log, Alike (fun v v' => ∃ w, Renames pairs (SameTime log) v w ∧ SameReply w v')
    x.1.reply x.2.reply

/-! ## Books in the order of reservation -/

namespace Book
variable {b : Book} {hashes : Hashes} {tenantKeyProvider : TenantKeyProvider} {c : TimedCall}

/-- Each effect was there, or is the one that was reserved. -/
theorem serve_origin {l : EffectLedger} (hl : l ∈ (b.serve hashes tenantKeyProvider c).2) :
    (∃ l' ∈ b, l'.id = l.id ∧ l'.record.createdAt = l.record.createdAt) ∨
      c.IsReserve ∧ l.id = str "eff_" ++ c.uuid ∧ l.record.createdAt = c.now := by
  refine serve_records (Q := fun record =>
    (∃ l' ∈ b, l'.id = record.effectId ∧ l'.record.createdAt = record.createdAt) ∨
      c.IsReserve ∧ record.effectId = str "eff_" ++ c.uuid ∧ record.createdAt = c.now)
    (fun l hl => .inl ⟨l, hl, rfl, rfl⟩) ?_ ?_ l hl
  · intro record record' hsame h
    rw [hsame]
    exact h
  · intro tenantId request contract record hcall hrecord
    obtain ⟨digest, tenantKey, key, -, -, -, rfl⟩ := newRecord_ok hrecord
    exact .inr ⟨⟨tenantId, request, contract, hcall⟩, rfl, rfl⟩

/-- Effects stay in their places. -/
theorem ids_serve : b.ids <+: (b.serve hashes tenantKeyProvider c).2.ids := by
  rcases @serve_shape hashes tenantKeyProvider b c with
    ⟨f, hb, hf⟩ | ⟨tenantId, request, contract, record, -, -, hb⟩
  · have hids : Book.ids (b.map f) = b.ids := by
      unfold ids
      rw [List.map_map]
      refine List.map_congr_left fun l _ => ?_
      show (f l).record.effectId = l.record.effectId
      rw [hf l]
    rw [hb]
    exact hids.symm ▸ List.prefix_rfl
  · rw [hb, ids, ids, List.map_append]
    exact List.prefix_append ..

/-- A book stays in the order of reservation. -/
theorem sorted_serve (h : b.Pairwise before)
    (hcreated : c.IsReserve → ∀ l ∈ b, l.record.createdAt < c.now) :
    (b.serve hashes tenantKeyProvider c).2.Pairwise before := by
  rcases @serve_shape hashes tenantKeyProvider b c with
    ⟨f, hb, hf⟩ | ⟨tenantId, request, contract, record, hcall, hrecord, hb⟩
  · rw [hb, List.pairwise_map]
    refine h.imp fun {l l'} hbefore => ?_
    unfold before
    rw [hf l, hf l']
    exact hbefore
  · rw [hb, List.pairwise_append]
    refine ⟨h, List.pairwise_singleton _ _, fun l hl l' hl' => .inl ?_⟩
    obtain ⟨digest, tenantKey, key, -, -, -, rfl⟩ := newRecord_ok hrecord
    rw [List.mem_singleton.mp hl']
    exact hcreated ⟨tenantId, request, contract, hcall⟩ l hl

end Book

/-! ## One step of both stores -/

theorem SameTime.mono {log log' : TwinLog} (h : log ⊆ log') (t t' : Datetime) (hsame : SameTime log t t') :
    SameTime log' t t' := by
  rcases hsame with rfl | ⟨x, hx, htimes⟩
  · exact .inl rfl
  · exact .inr ⟨x, h hx, htimes⟩

section
variable {ids ids' : List Str} {c c' : TimedCall}

theorem TwinCall.isReserve (h : TwinCall ids ids' c.call c'.call) : c'.IsReserve ↔ c.IsReserve := by
  obtain ⟨call, now, uuid⟩ := c
  obtain ⟨call', now', uuid'⟩ := c'
  unfold TimedCall.IsReserve
  cases h <;> simp

theorem TwinCall.wellFormed (h : TwinCall ids ids' c.call c'.call) (hwf : c.WellFormed) :
    c'.WellFormed := by
  obtain ⟨call, now, uuid⟩ := c
  obtain ⟨call', now', uuid'⟩ := c'
  cases h <;> exact hwf

theorem TwinCall.plain (h : TwinCall ids ids' c.call c'.call) (hplain : c.call.Plain) :
    c'.call.Plain := by
  generalize c.call = call, c'.call = call' at h hplain
  cases h <;> exact hplain

end

/-- The SQLite store holds the twin of the book of the in-memory store. -/
structure TwinStores (hashes : Hashes) (tenantKeyProvider : TenantKeyProvider) (log : TwinLog)
    (s : InMemoryStore) (s' : SqliteStore) (b : Book) : Prop where
  sound : s.Sound
  owned : s.Owned
  pinned : s.AllPinned
  secrets : (s.hashes, s.tenantKeyProvider) = (hashes, tenantKeyProvider)
  holds : s'.Holds (hashes, tenantKeyProvider) b
  twins : Twins (SameTime log) s.book b
  plain : ∀ l ∈ b, l.Plain
  named : ∀ l ∈ b, Python.Encodable l.id
  created : ∀ l ∈ s.book, ∃ x ∈ log, x.1.call.IsReserve ∧ x.1.call.now = l.record.createdAt
  created' : ∀ l ∈ b, ∃ x ∈ log, x.1.call.IsReserve ∧ x.2.call.now = l.record.createdAt

namespace TwinStores
variable {hashes : Hashes} {tenantKeyProvider : TenantKeyProvider} {log : TwinLog} {s : InMemoryStore}
  {s' : SqliteStore} {b : Book} {c c' : TimedCall}

theorem initial : TwinStores hashes tenantKeyProvider [] (.initial hashes tenantKeyProvider)
    (.initial hashes tenantKeyProvider) [] where
  sound := ⟨InMemoryStore.kept_initial hashes tenantKeyProvider, fun _ _ h => nomatch h⟩
  owned _ _ := ⟨rfl, rfl⟩
  pinned _ h := nomatch h
  secrets := rfl
  holds := SqliteStore.holds_initial hashes tenantKeyProvider
  twins := ⟨.nil, ⟨.nil, .nil⟩, ⟨.nil, .nil⟩, .nil, .nil⟩
  plain _ h := nomatch h
  named _ h := nomatch h
  created _ h := nomatch h
  created' _ h := nomatch h

theorem ids (h : TwinStores hashes tenantKeyProvider log s s' b) : s'.ids = b.ids := by
  unfold SqliteStore.ids
  rw [h.holds.effects, List.map_map]
  rfl

theorem keys (h : TwinStores hashes tenantKeyProvider log s s' b) : s.records.keys = s.book.ids :=
  h.sound.toKept.ids_book.symm

/-- The twin of a ledger of the SQLite store. -/
theorem twin (h : TwinStores hashes tenantKeyProvider log s s' b) {l' : EffectLedger} (hl' : l' ∈ b) :
    ∃ l ∈ s.book, TwinsAt (SameTime log) s.book b l l' := by
  obtain ⟨i, hi, rfl⟩ := List.getElem_of_mem hl'
  have hi' : i < s.book.length := h.twins.length ▸ hi
  exact ⟨s.book[i], List.getElem_mem hi', h.twins.at_.get hi' hi⟩

theorem sameCall (h : TwinStores hashes tenantKeyProvider log s s' b) (hc : Promised log s s' c c') :
    TwinCall s.book.ids b.ids c.call c'.call := by
  rw [← h.keys, ← h.ids]
  exact hc.same

/-- What can be numbered in memory can be numbered in the tables. -/
theorem roomy (h : TwinStores hashes tenantKeyProvider log s s' b) (hcan : CanServe s c c') :
    ∀ l ∈ b, l.Roomy := by
  intro l' hl'
  obtain ⟨l, hl, htwin, -⟩ := h.twin hl'
  obtain ⟨⟨e, record⟩, -, rfl⟩ := List.mem_map.mp hl
  have hlengths : l'.events.length = (s.eventsOf e).length := htwin.events.length_eq.symm
  have hattempts : l'.attempts.length = (s.attemptsOf e).length := htwin.attempts
  refine ⟨⟨_, sqliteRead_whole (h.plain l' hl').record.contract⟩, h.named l' hl', ?_, ?_⟩
  · rw [hlengths, InMemoryStore.eventsOf]
    cases hget : s.events.get? e with
    | none => decide
    | some events => exact hcan.1 events (Dict.mem_values_of_get? hget)
  · rw [hattempts, InMemoryStore.attemptsOf]
    cases hget : s.attempts.get? e with
    | none => decide
    | some attempts => exact hcan.2.1 attempts (Dict.mem_values_of_get? hget)

/-- What the SQLite store finds at a version, the in-memory store has found there. -/
theorem current (h : TwinStores hashes tenantKeyProvider log s s' b) {e e' : Str} {expectedVersion : Int}
    {l' : EffectLedger} (he : SameEffectId s.book.ids b.ids e e')
    (hl' : b.current e' expectedVersion = .ok l') :
    ∃ record, s.recordForUpdate e expectedVersion = .ok record ∧ l'.record.status = record.status := by
  have hcurrent := h.twins.current he expectedVersion
  rw [hl', InMemoryStore.current_book h.sound.toKept] at hcurrent
  cases hrecord : s.recordForUpdate e expectedVersion with
  | error exc =>
    rw [hrecord] at hcurrent
    cases hcurrent
  | ok record =>
    rw [hrecord] at hcurrent
    cases hcurrent with
    | ok hat => exact ⟨record, rfl, hat.1.1.status⟩

theorem fits (h : TwinStores hashes tenantKeyProvider log s s' b) (hc : Promised log s s' c c')
    (hcan : CanServe s c c') : Fits (hashes, tenantKeyProvider) b c' := by
  refine ⟨h.roomy hcan, ?_⟩
  have hsame := h.sameCall hc
  have hwf := hc.same.wellFormed hc.wellFormed
  have hplain := hc.same.plain hc.plain
  have huuid := hc.encodable
  obtain ⟨-, -, htexts, hcall⟩ := hcan
  obtain ⟨hhashes, hkeys⟩ := Prod.mk.inj h.secrets
  obtain ⟨call, now, uuid⟩ := c
  obtain ⟨call', now', uuid'⟩ := c'
  cases hsame with
  | @reserve tenantId request contract =>
    intro record hrecord
    obtain ⟨hrequested, htrace, hretry⟩ := hcall ⟨record, by rw [hhashes, hkeys]; exact hrecord⟩
    exact newRecord_fits hrecord hwf huuid hrequested htrace hretry
  | @claimDue workerId now leaseFor limit =>
    intro hne
    rw [h.twins.queue.2] at hne
    have hpicks := h.twins.picks now limit
    have hlimit : 0 < limit := by
      by_contra hnot
      exact hne (Book.picks_of_nonpos (by omega))
    -- what is due in one book is due in the other
    obtain ⟨l', hl'⟩ := List.exists_mem_of_ne_nil _ hne
    have hne' : s.picks now limit.toNat s.records.items ≠ [] := by
      intro hnil
      rw [InMemoryStore.picks_book, hnil] at hpicks
      exact hne (List.forall₂_nil_left_iff.mp hpicks)
    obtain ⟨item, hitem⟩ := List.exists_mem_of_ne_nil _ hne'
    have hdue := List.mem_filter.mp (List.mem_of_mem_take hitem)
    exact (hcall hlimit).2 ⟨item, hdue⟩
  | @startAttempt e e' expectedVersion workerId he =>
    refine ⟨htexts e' (List.mem_singleton.mpr rfl), ?_⟩
    rintro ⟨l', hl'⟩
    obtain ⟨record, hrecord, -⟩ := h.current he hl'
    exact hcall ⟨record, hrecord⟩
  | @transition e e' expectedVersion target data he =>
    refine ⟨htexts e' (List.mem_singleton.mpr rfl), ?_⟩
    rintro ⟨⟨record', b'⟩, hok⟩
    obtain ⟨l', hl', hversion, hallowed, -⟩ := Book.transition_ok hok
    obtain ⟨record, hrecord, hstatus⟩ := h.current he (Book.current_ok.mpr ⟨hl', hversion⟩)
    have hdumps := dumps_jsonLike _ (PlainJson.jsonLike _ hplain)
    exact ⟨⟨hwf, hdumps⟩, hcall ⟨record, hrecord, hstatus ▸ hallowed⟩⟩
  | get he | receipt he =>
    exact ⟨htexts _ (List.mem_cons_self ..), htexts _ (.tail _ (List.mem_cons_self ..))⟩
  | list => exact ⟨htexts _ (List.mem_cons_self ..), hcall⟩
  | events he | attemptCount he => exact htexts _ (List.mem_cons_self ..)
  | count => trivial

/-- A reservation is later than what is in the books. -/
theorem later (h : TwinStores hashes tenantKeyProvider log s s' b) (hc : Promised log s s' c c')
    (hreserve : c.IsReserve) :
    (∀ l ∈ s.book, l.record.createdAt < c.now) ∧ ∀ l ∈ b, l.record.createdAt < c'.now := by
  constructor
  · intro l hl
    obtain ⟨x, hx, hreserved, hcreated⟩ := h.created l hl
    rw [← hcreated]
    exact (hc.increasing hreserve x hx hreserved).1
  · intro l hl
    obtain ⟨x, hx, hreserved, hcreated⟩ := h.created' l hl
    rw [← hcreated]
    exact (hc.increasing hreserve x hx hreserved).2

/-- **Both stores do the same**, and the books stay twins. -/
theorem serve (h : TwinStores hashes tenantKeyProvider log s s' b) (hc : Promised log s s' c c')
    (hcan : CanServe s c c') (x : Served InMemoryStore × Served SqliteStore)
    (hx : x = (⟨c, (s.serve c).1, (s.serve c).2⟩, ⟨c', (s'.serve c').1, (s'.serve c').2⟩)) :
    ∃ b', TwinStores hashes tenantKeyProvider (x :: log) (s.serve c).2 (s'.serve c').2 b' ∧
      idPairs s.book b ⊆ idPairs (s.serve c).2.book b' ∧
      Alike (fun v v' => ∃ w, Renames (idPairs (s.serve c).2.book b') (SameTime (x :: log)) v w ∧
        SameReply w v') (s.serve c).1 (s'.serve c').1 := by
  have hkept := h.sound.toKept
  have hsame := h.sameCall hc
  have hwf := hc.same.wellFormed hc.wellFormed
  have hplain := hc.same.plain hc.plain
  have hcall : x.1.call = c ∧ x.2.call = c' := by rw [hx]; exact ⟨rfl, rfl⟩
  have hold : log ⊆ x :: log := List.subset_cons_self x log
  -- what the in-memory store does is what its book does
  have hmemory : InMemoryStore.Plain c := by
    have hserve := hcan.2.2.2
    have hpage := hc.page
    unfold InMemoryStore.Plain
    split
    · rename_i hclaim
      rw [hclaim] at hserve
      exact fun hlimit => (hserve hlimit).1
    · rename_i hlist
      exact hpage _ _ _ _ hlist
    · trivial
  have hover : ¬s.LeaseOverflows c := by
    unfold InMemoryStore.LeaseOverflows
    unfold InMemoryStore.Plain at hmemory
    split
    · rename_i hclaim
      rw [hclaim] at hmemory
      exact fun hover => hmemory hover.1 hover.2.1
    · exact id
  have hbook := InMemoryStore.serve_book hkept h.owned h.pinned h.twins.sorted hmemory
  obtain ⟨hhashes, hkeys⟩ := Prod.mk.inj h.secrets
  rw [hhashes, hkeys] at hbook
  -- what the SQLite store does is what its book does, and that is the same
  have htwins : Twins (SameTime (x :: log)) s.book b :=
    ⟨h.twins.ledgers.imp fun _ _ hl => hl.mono (SameTime.mono hold), h.twins.unique, h.twins.unique',
      h.twins.sorted, h.twins.sorted'⟩
  have hnow : SameTime (x :: log) c.now c'.now :=
    .inr ⟨x, List.mem_cons_self .., by rw [hcall.1], by rw [hcall.2]⟩
  have hfree : str "eff_" ++ zeroPadded 6 s.nextEffectId ∉ s.book.ids := hkept.next_not_mem
  have hout := @Twins.serve (SameTime (x :: log)) s.book b htwins (fun t => .inl rfl) hashes
    tenantKeyProvider { c with uuid := zeroPadded 6 s.nextEffectId } c' hsame hnow hfree
    (h.ids ▸ hc.fresh)
  have hfollows := serve_follows h.holds hwf
  have hfits := h.fits hc hcan
  have hids := @Book.ids_serve s.book hashes tenantKeyProvider { c with uuid := zeroPadded 6 s.nextEffectId }
  have hids' := @Book.ids_serve b hashes tenantKeyProvider c'
  have hpairs := idPairs_subset h.twins.length hids hids'
  have hlater := h.later hc
  have hsorted := @Book.sorted_serve s.book hashes tenantKeyProvider
    { c with uuid := zeroPadded 6 s.nextEffectId } h.twins.sorted fun hr => (hlater hr).1
  have hsorted' := @Book.sorted_serve b hashes tenantKeyProvider c' h.twins.sorted'
    fun hr => (hlater (hc.same.isReserve.mp hr)).2
  have horigin := fun l => @Book.serve_origin s.book hashes tenantKeyProvider
    { c with uuid := zeroPadded 6 s.nextEffectId } l
  have horigin' := fun l => @Book.serve_origin b hashes tenantKeyProvider c' l
  have hplain' := @Book.serve_plain b hashes tenantKeyProvider h.plain c' hplain
  have hshown := fun value => @Book.serve_plain_reply b hashes tenantKeyProvider h.plain c' hplain value
  rw [← hbook] at hout hids hpairs hsorted horigin
  refine ⟨(b.serve hashes tenantKeyProvider c').2, ?_, hpairs, ?_⟩
  · have hkept' := h.sound.serve hover
    have hsecrets := InMemoryStore.serve_secrets hkept c
    have hholds : (s'.serve c').2.Holds (hashes, tenantKeyProvider) (b.serve hashes tenantKeyProvider c').2 := by
      generalize b.serve hashes tenantKeyProvider c' = out, s'.serve c' = out' at hfollows
      cases hfollows with
      | ok _ hholds => exact hholds
      | error => exact h.holds
      | unfit hunfit => exact absurd hfits hunfit
    exact {
      sound := hkept'
      owned := h.owned.serve hkept c
      pinned := h.pinned.serve hkept c
      secrets := hsecrets.trans h.secrets
      holds := hholds
      twins := ⟨hout.ledgers, hkept'.toKept.unique, hholds.good.toUnique, hsorted, hsorted'⟩
      plain := hplain'
      named := by
        intro l hl
        rcases horigin' l hl with ⟨l', hl', hid, -⟩ | ⟨-, hid, -⟩
        · rw [← hid]
          exact h.named l' hl'
        · rw [hid]
          exact encodable_append.mpr ⟨encodable_str _, hc.encodable⟩
      created := by
        intro l hl
        rcases horigin l hl with ⟨l', hl', -, hcreated⟩ | ⟨hreserve, -, hcreated⟩
        · obtain ⟨y, hy, hreserved, htime⟩ := h.created l' hl'
          exact ⟨y, hold hy, hreserved, htime.trans hcreated⟩
        · exact ⟨x, List.mem_cons_self .., hcall.1 ▸ hreserve, by rw [hcall.1]; exact hcreated.symm⟩
      created' := by
        intro l hl
        rcases horigin' l hl with ⟨l', hl', -, hcreated⟩ | ⟨hreserve, -, hcreated⟩
        · obtain ⟨y, hy, hreserved, htime⟩ := h.created' l' hl'
          exact ⟨y, hold hy, hreserved, htime.trans hcreated⟩
        · exact ⟨x, List.mem_cons_self .., hcall.1 ▸ hc.same.isReserve.mp hreserve,
            by rw [hcall.2]; exact hcreated.symm⟩ }
  · obtain ⟨hreply, -⟩ := hout
    generalize b.serve hashes tenantKeyProvider c' = out, s'.serve c' = out' at hfollows hreply hshown ⊢
    generalize (s.serve c).1 = reply at hreply ⊢
    cases hfollows with
    | @ok p q s'' b'' hreads _ =>
      cases hreply with
      | ok hrenames => exact .ok ⟨q, hrenames, hreads.same (hshown q rfl)⟩
    | error =>
      cases hreply with
      | error hclass => exact .error hclass
    | unfit hunfit => exact absurd hfits hunfit

end TwinStores

/-! ## All runs -/

section
variable {hashes : Hashes} {tenantKeyProvider : TenantKeyProvider} {log : TwinLog} {s : InMemoryStore}
  {s' : SqliteStore}

/-- A run of calls that both stores can serve leaves twins, and all replies were the same. -/
theorem TwinRun.twinStores (h : TwinRun CanServe hashes tenantKeyProvider log s s') :
    ∃ b, TwinStores hashes tenantKeyProvider log s s' b ∧ SameReplies (idPairs s.book b) log := by
  induction h with
  | start => exact ⟨[], .initial, fun _ hx => nomatch hx⟩
  | @call log s s' c c' hc hcan _ ih =>
    obtain ⟨b, htwins, hreplies⟩ := ih
    obtain ⟨b', htwins', hpairs, hreply⟩ := htwins.serve hc hcan _ rfl
    refine ⟨b', htwins', List.forall_mem_cons.mpr ⟨hreply, fun x hx => ?_⟩⟩
    -- what was the same when it was replied still is
    have hold := hreplies x hx
    generalize x.1.reply = reply, x.2.reply = reply' at hold ⊢
    cases hold with
    | error hclass => exact .error hclass
    | ok hsame =>
      obtain ⟨w, hrenames, hsame⟩ := hsame
      exact .ok ⟨w, hrenames.mono hpairs (SameTime.mono (List.subset_cons_self _ log)), hsame⟩

/-- The lease of each effect is in its row. -/
theorem TwinStores.leases {b : Book} (h : TwinStores hashes tenantKeyProvider log s s' b) {e e' : Str}
    (he : (e, e') ∈ idPairs s.book b) : ∃ row ∈ s'.effects, row.effectId = e' ∧
      row.leaseWorkerId = (s.leases.get? e).map Lease.workerId ∧
      row.leaseUntil = (s.leases.get? e).map fun lease => lease.expiresAt.isoformat := by
  have hledger := h.twins.ledger (.inl he)
  rw [h.sound.toKept.ledger_book] at hledger
  cases hl : s.ledgerOf e with
  | none =>
    have hmem := (List.of_mem_zip he).1
    obtain ⟨l, hm, hid⟩ := List.mem_map.mp hmem
    rw [← hid, h.sound.toKept.mem_book.mp hm] at hl
    cases hl
  | some l =>
    obtain ⟨record, -, rfl⟩ := Option.map_eq_some_iff.mp hl
    rw [hl] at hledger
    cases hl' : b.ledger e' with
    | none =>
      rw [hl'] at hledger
      cases hledger
    | some l' =>
      rw [hl'] at hledger
      cases hledger with
      | some hat =>
        obtain ⟨hm, hid⟩ := Book.mem_of_ledger hl'
        refine ⟨effectRow l', ?_, hid, ?_, ?_⟩
        · rw [h.holds.effects]
          exact List.mem_map_of_mem hm
        · exact congrArg (Option.map Lease.workerId) hat.1.lease
        · exact congrArg (Option.map fun lease => lease.expiresAt.isoformat) hat.1.lease

/-- **The SQLite store simulates the in-memory store** in runs whose calls both can serve: the
effects are the same one by one, with the same leases, and so are the replies. -/
theorem stores_twin (hrun : TwinRun CanServe hashes tenantKeyProvider log s s') :
    let pairs := s.records.keys.zip s'.ids
    (Relator.BiUnique fun e e' => (e, e') ∈ pairs) ∧ SameReplies pairs log ∧
      ∀ e e', (e, e') ∈ pairs → ∃ row ∈ s'.effects, row.effectId = e' ∧
        row.leaseWorkerId = (s.leases.get? e).map Lease.workerId ∧
        row.leaseUntil = (s.leases.get? e).map fun lease => lease.expiresAt.isoformat := by
  obtain ⟨b, htwins, hreplies⟩ := hrun.twinStores
  intro pairs
  have hpairs : pairs = idPairs s.book b := by
    show s.records.keys.zip s'.ids = s.book.ids.zip b.ids
    rw [htwins.keys, htwins.ids]
  rw [hpairs]
  exact ⟨htwins.twins.biUnique, hreplies, fun e e' he => htwins.leases he⟩

end

section
variable (hashes : Hashes) (tenantKeyProvider : TenantKeyProvider)

/-- What both stores log when they serve pairs of calls, which come newest first. -/
def twinLog (calls : List (TimedCall × TimedCall)) : TwinLog :=
  (servedCalls InMemoryStore.serve (.initial hashes tenantKeyProvider) (calls.map Prod.fst)).zip
    (servedCalls SqliteStore.serve (.initial hashes tenantKeyProvider) (calls.map Prod.snd))

/-- The in-memory store after the first calls of pairs. -/
def firstStore (calls : List (TimedCall × TimedCall)) : InMemoryStore :=
  storeOf InMemoryStore.serve (.initial hashes tenantKeyProvider) (calls.map Prod.fst)

/-- The SQLite store after the second calls of pairs. -/
def secondStore (calls : List (TimedCall × TimedCall)) : SqliteStore :=
  storeOf SqliteStore.serve (.initial hashes tenantKeyProvider) (calls.map Prod.snd)

variable {hashes tenantKeyProvider}

theorem twinRun_cons {P : InMemoryStore → TimedCall → TimedCall → Prop} {c c' : TimedCall}
    {calls : List (TimedCall × TimedCall)}
    (hpromised : Promised (twinLog hashes tenantKeyProvider calls)
      (firstStore hashes tenantKeyProvider calls) (secondStore hashes tenantKeyProvider calls) c c')
    (hP : P (firstStore hashes tenantKeyProvider calls) c c')
    (h : TwinRun P hashes tenantKeyProvider (twinLog hashes tenantKeyProvider calls)
      (firstStore hashes tenantKeyProvider calls) (secondStore hashes tenantKeyProvider calls)) :
    TwinRun P hashes tenantKeyProvider (twinLog hashes tenantKeyProvider ((c, c') :: calls))
      (firstStore hashes tenantKeyProvider ((c, c') :: calls))
      (secondStore hashes tenantKeyProvider ((c, c') :: calls)) :=
  .call c c' hpromised hP h

end

/-- The sample operation is reserved on some day. -/
def reserveCall (day : Fin 100) (uuid : Str) : TimedCall :=
  ⟨.reserve sampleTenant sampleRequest (sampleContract .unsafeClass 0), sampleTime day, uuid⟩

/-- A worker claims the first effect. -/
def claimFirst (day : Fin 100) (uuid : Str) : TimedCall :=
  ⟨.claimDue (str "w") (sampleTime 2) oneDay 1, sampleTime day, uuid⟩

/-- The claimed effect is moved to `dispatching`. -/
def moveCall (e : Str) (day : Fin 100) (uuid : Str) : TimedCall :=
  ⟨.transition e 1 .dispatching [], sampleTime day, uuid⟩

/-- Both stores reserve the sample operation, a day apart, hand its effect out and move it. -/
def twinCalls : List (TimedCall × TimedCall) :=
  [(moveCall (effectIdOf 1) 2 [], moveCall (str "eff_0") 3 (str "2")),
    (claimFirst 2 [], claimFirst 3 (str "1")), (reserveCall 0 [], reserveCall 1 (str "0"))]

theorem reserveCalls_served : TwinRun CanServe sampleHashes sampleKeys
    (twinLog sampleHashes sampleKeys (twinCalls.drop 2))
    (firstStore sampleHashes sampleKeys (twinCalls.drop 2))
    (secondStore sampleHashes sampleKeys (twinCalls.drop 2)) := by
  have hwhole : (sampleContract .unsafeClass 0).IsWhole :=
    ⟨fun d hd => Option.mem_some_iff.mp hd ▸ by decide +kernel,
      fun d hd => Option.mem_some_iff.mp hd ▸ by decide +kernel⟩
  refine twinRun_cons {
      same := .reserve
      wellFormed := ⟨List.nodup_singleton _, trivial, trivial⟩
      plain := ⟨⟨trivial, trivial⟩, hwhole⟩
      page := fun _ _ _ _ hcall => nomatch hcall
      fresh := List.not_mem_nil
      encodable := encodable_str _
      increasing := fun _ _ hx => nomatch hx }
    ⟨List.forall_mem_nil _, List.forall_mem_nil _, List.forall_mem_nil _, fun _ => ?_⟩ .start
  refine ⟨encodable_str _, fun id hid => ?_, by decide, by decide⟩
  cases hid

theorem claimCalls_served : TwinRun CanServe sampleHashes sampleKeys
    (twinLog sampleHashes sampleKeys (twinCalls.drop 1))
    (firstStore sampleHashes sampleKeys (twinCalls.drop 1))
    (secondStore sampleHashes sampleKeys (twinCalls.drop 1)) := by
  refine twinRun_cons {
      same := .claimDue
      wellFormed := trivial
      plain := trivial
      page := fun _ _ _ _ hcall => nomatch hcall
      fresh := by decide +kernel
      encodable := encodable_str _
      increasing := fun hreserve => ?_ }
    ⟨by decide +kernel, by decide +kernel, List.forall_mem_nil _, fun _ =>
      ⟨by decide, fun _ => encodable_str _⟩⟩ reserveCalls_served
  obtain ⟨tenantId, request, contract, hcall⟩ := hreserve
  cases hcall

theorem twinCalls_served : TwinRun CanServe sampleHashes sampleKeys
    (twinLog sampleHashes sampleKeys twinCalls) (firstStore sampleHashes sampleKeys twinCalls)
    (secondStore sampleHashes sampleKeys twinCalls) := by
  have hjson : jsonOf (.dict []) = str "\x7b\x7d" := rfl
  refine twinRun_cons {
      same := .transition (.inl (by decide +kernel))
      wellFormed := ⟨List.nodup_nil, trivial⟩
      plain := trivial
      page := fun _ _ _ _ hcall => nomatch hcall
      fresh := by decide +kernel
      encodable := encodable_str _
      increasing := fun hreserve => ?_ }
    ⟨by decide +kernel, by decide +kernel, List.forall_mem_singleton.mpr (encodable_str _),
      fun _ => hjson ▸ encodable_str _⟩ claimCalls_served
  obtain ⟨tenantId, request, contract, hcall⟩ := hreserve
  cases hcall

/-- Both stores hand out the effect at its first version, and give its lease back. -/
theorem stores_twin_sample :
    let log := twinLog sampleHashes sampleKeys twinCalls
    let s := firstStore sampleHashes sampleKeys twinCalls
    let s' := secondStore sampleHashes sampleKeys twinCalls
    log.map (fun x => (handedOut x.1.reply, handedOut x.2.reply)) =
      [(none, none), (some [(effectIdOf 1, 1)], some [(str "eff_0", 1)]), (none, none)] ∧
    s.leases.size = 0 ∧ SameReplies (s.records.keys.zip s'.ids) log ∧
    ∀ e e', (e, e') ∈ s.records.keys.zip s'.ids → ∃ row ∈ s'.effects, row.effectId = e' ∧
      row.leaseWorkerId = (s.leases.get? e).map Lease.workerId ∧
      row.leaseUntil = (s.leases.get? e).map fun lease => lease.expiresAt.isoformat :=
  ⟨by decide +kernel, by decide +kernel, (stores_twin twinCalls_served).2.1,
    (stores_twin twinCalls_served).2.2⟩

/-- With nothing to claim, a lease that would end outside the range of `datetime` is an error
in SQLite only. -/
theorem stores_differ : ¬∀ log s s', TwinRun (fun _ _ _ => True) sampleHashes sampleKeys log s s' →
    SameReplies (s.records.keys.zip s'.ids) log := by
  intro hall
  let claim : TimedCall := ⟨.claimDue (str "worker") (sampleTime 0)
    ⟨3000000 * 86400000000, by decide, by decide⟩ 1, sampleTime 0, []⟩
  have hpromised : Promised [] (.initial sampleHashes sampleKeys) (.initial sampleHashes sampleKeys)
      claim claim := {
    same := .claimDue
    wellFormed := trivial
    plain := trivial
    page := fun _ _ _ _ hcall => nomatch hcall
    fresh := List.not_mem_nil
    encodable := encodable_nil
    increasing := fun _ _ hx => nomatch hx }
  have hrun : TwinRun (fun _ _ _ => True) sampleHashes sampleKeys _ _ _ :=
    .call claim claim hpromised trivial .start
  have hsame := hall _ _ _ hrun _ (List.mem_singleton.mpr rfl)
  cases hsame

end EffectBroker
