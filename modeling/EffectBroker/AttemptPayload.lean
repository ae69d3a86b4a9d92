import EffectBroker.Cancellation
import EffectBroker.MemoryBook
import EffectBroker.PinnedContract
import EffectBroker.PlainJson
import EffectBroker.SqliteSystem

/-!
# The payload of every attempt

Both stores answer from what was reserved: the in-memory store replaces the fields of a
move in the record it keeps, and the SQLite store reads each record back from its row.  A
contract is read back as it was, unless a duration is not its own float of seconds.
-/
namespace EffectBroker
open Python Concurrency

/-! ## The in-memory store -/

namespace InMemoryStore

/-- The records are those of the originals, moved. -/
structure Gave (hashes : Hashes) (tenantKeyProvider : TenantKeyProvider) (given : List EffectRecord)
    (s : InMemoryStore) : Prop where
  kept : s.Kept
  pinned : s.AllPinned
  secrets : (s.hashes, s.tenantKeyProvider) = (hashes, tenantKeyProvider)
  of_record : ∀ e record, s.records.get? e = some record → ∃ origin ∈ given, SameEffect origin record
  of_origin : ∀ origin ∈ given, ∃ record, s.records.get? origin.effectId = some record ∧
    SameEffect origin record

section
variable {hashes : Hashes} {tenantKeyProvider : TenantKeyProvider} {given : List EffectRecord}
  {s : InMemoryStore}

theorem AllPinned.record (h : s.AllPinned) {e : Str} {record : EffectRecord}
    (hget : s.records.get? e = some record) : Pinned s.hashes s.tenantKeyProvider record :=
  h (s.entry (e, record)) (List.mem_map_of_mem (Dict.mem_items_of_get? hget))

/-- Each record is of the effect that it was of. -/
def Moves (s s' : InMemoryStore) : Prop :=
  ∀ e, Option.Rel SameEffect (s.records.get? e) (s'.records.get? e)

theorem moves_of_records {s' : InMemoryStore} (h : s'.records = s.records) : s.Moves s' := by
  intro e
  rw [h]
  cases s.records.get? e with
  | none => exact .none
  | some record => exact .some (.refl record)

theorem moves_of_set {s' : InMemoryStore} {e : Str} {before after : EffectRecord}
    (hget : s.records.get? e = some before) (hsame : SameEffect before after)
    (h : ∀ e', s'.records.get? e' = if e' = e then some after else s.records.get? e') : s.Moves s' := by
  intro e'
  rw [h]
  by_cases he : e' = e
  · rw [if_pos he, he, hget]
    exact .some hsame
  · rw [if_neg he]
    exact moves_of_records rfl e'

theorem Gave.moves (h : s.Gave hashes tenantKeyProvider given) {s' : InMemoryStore} (hkept : s'.Kept)
    (hpinned : s'.AllPinned)
    (hsecrets : (s'.hashes, s'.tenantKeyProvider) = (s.hashes, s.tenantKeyProvider))
    (hmoves : s.Moves s') : s'.Gave hashes tenantKeyProvider given := by
  refine ⟨hkept, hpinned, hsecrets.trans h.secrets, fun e record hget => ?_, fun origin hm => ?_⟩
  · have hrel := hmoves e
    rw [hget] at hrel
    cases hbefore : s.records.get? e with
    | none =>
      rw [hbefore] at hrel
      cases hrel
    | some before =>
      rw [hbefore] at hrel
      cases hrel with
      | some hsame =>
        obtain ⟨origin, hm, horigin⟩ := h.of_record e before hbefore
        exact ⟨origin, hm, horigin.trans hsame⟩
  · obtain ⟨before, hbefore, horigin⟩ := h.of_origin origin hm
    have hrel := hmoves origin.effectId
    rw [hbefore] at hrel
    cases hafter : s'.records.get? origin.effectId with
    | none =>
      rw [hafter] at hrel
      cases hrel
    | some after =>
      rw [hafter] at hrel
      cases hrel with
      | some hsame => exact ⟨after, rfl, horigin.trans hsame⟩

/-- A new record, with an id and an identity of its own. -/
theorem Gave.inserts (h : s.Gave hashes tenantKeyProvider given) {s' : InMemoryStore}
    {record : EffectRecord} (hkept : s'.Kept) (hpinned : s'.AllPinned)
    (hsecrets : (s'.hashes, s'.tenantKeyProvider) = (s.hashes, s.tenantKeyProvider))
    (hid : s.records.get? record.effectId = none)
    (hrecords : ∀ e, s'.records.get? e = if e = record.effectId then some record else s.records.get? e) :
    s'.Gave hashes tenantKeyProvider (record :: given) := by
  refine ⟨hkept, hpinned, hsecrets.trans h.secrets, fun e found hget => ?_, fun origin hm => ?_⟩
  · rw [hrecords] at hget
    split at hget
    · cases hget
      exact ⟨record, List.mem_cons_self .., .refl _⟩
    · obtain ⟨origin, hm, horigin⟩ := h.of_record e found hget
      exact ⟨origin, List.mem_cons_of_mem _ hm, horigin⟩
  · rcases List.mem_cons.mp hm with rfl | hm
    · exact ⟨origin, by rw [hrecords, if_pos rfl], .refl _⟩
    · obtain ⟨found, hget, horigin⟩ := h.of_origin origin hm
      have hne : origin.effectId ≠ record.effectId := by
        intro he
        rw [he, hid] at hget
        cases hget
      exact ⟨found, by rw [hrecords, if_neg hne, hget], horigin⟩

end
end InMemoryStore

section
variable {Target Decision : Type} {adapters : Adapters Target Decision} {hashes : Hashes}
  {tenantKeyProvider : TenantKeyProvider} {given : List EffectRecord}
  {shared : Shared InMemoryStore Target}

/-- A request that creates no effect moves records at most, and shows records of the ledger. -/
theorem moves_serve (r : Request) (surroundings : Surroundings Decision)
    (hnew : newEffect? r (serve memoryStore adapters r surroundings shared).1 = none) :
    shared.store.Moves (serve memoryStore adapters r surroundings shared).2.store ∧
      ∀ record ∈ returned r (serve memoryStore adapters r surroundings shared).1,
        ∃ e, (serve memoryStore adapters r surroundings shared).2.store.records.get? e =
          some record := by
  have silent : ∀ {s' : InMemoryStore}, ∀ record ∈ ([] : List EffectRecord),
      ∃ e, s'.records.get? e = some record := List.forall_mem_nil _
  cases r with
  | reserve tenantId request contract =>
    simp only [serve, memoryStore] at hnew ⊢
    rcases shared.store.reserve_cases surroundings.now tenantId request contract with
      ⟨exc, next, heq, -⟩ | ⟨existing, heq, e, -, hget⟩ | ⟨record, heq, -⟩ <;> rw [heq] at hnew ⊢
    · exact ⟨InMemoryStore.moves_of_records rfl, silent⟩
    · exact ⟨InMemoryStore.moves_of_records rfl, List.forall_mem_singleton.mpr ⟨e, hget⟩⟩
    · cases hnew
  | claimDue workerId now leaseFor limit =>
    simp only [serve, memoryStore]
    obtain ⟨hclaims, hresults⟩ := shared.store.claimDue_spec workerId now leaseFor limit
    generalize shared.store.claimDue workerId now leaseFor limit = out at hclaims hresults ⊢
    obtain ⟨result, after⟩ := out
    refine ⟨fun e => ?_, ?_⟩
    · rcases hclaims.records e with hsame | ⟨record, hget, -, hget'⟩
      · rw [hsame]
        exact InMemoryStore.moves_of_records rfl e
      · rw [hget, hget']
        exact .some rfl
    · cases result with
      | error exc => exact silent
      | ok results =>
        intro record hm
        obtain ⟨e, -, -, -, -, hget⟩ := hresults results rfl record hm
        exact ⟨e, hget⟩
  | startAttempt effectId expectedVersion workerId =>
    simp only [serve, memoryStore]
    rcases shared.store.startAttempt_cases surroundings.now effectId expectedVersion workerId with
      ⟨exc, heq⟩ | ⟨record, -, -, heq⟩ <;> rw [heq] <;> exact ⟨InMemoryStore.moves_of_records rfl, silent⟩
  | transition effectId expectedVersion target data =>
    simp only [serve, memoryStore]
    rcases shared.store.transition_cases surroundings.now effectId expectedVersion target data with
      ⟨exc, heq, -⟩ | ⟨record, hget, -, -, heq⟩ <;> rw [heq]
    · exact ⟨InMemoryStore.moves_of_records rfl, silent⟩
    · have hsame : SameEffect record (movedRecord record target surroundings.now) := rfl
      refine ⟨InMemoryStore.moves_of_set hget hsame fun e' => InMemoryStore.moveRecord_records .., ?_⟩
      refine List.forall_mem_singleton.mpr ⟨effectId, ?_⟩
      rw [InMemoryStore.moveRecord_records, if_pos rfl]
  | get tenantId effectId =>
    simp only [serve, memoryStore]
    refine ⟨InMemoryStore.moves_of_records rfl, ?_⟩
    cases hget : shared.store.get tenantId effectId with
    | none => exact silent
    | some record => exact List.forall_mem_singleton.mpr ⟨effectId, InMemoryStore.get_some hget⟩
  | _ => exact ⟨InMemoryStore.moves_of_records rfl, silent⟩

/-- The in-memory store answers from what it was given. -/
theorem gave_serve (h : shared.store.Gave hashes tenantKeyProvider given) (r : Request)
    (surroundings : Surroundings Decision) :
    (serve memoryStore adapters r surroundings shared).2.store.Gave hashes tenantKeyProvider
        ((newEffect? r (serve memoryStore adapters r surroundings shared).1).toList ++ given) ∧
      AnswersFrom hashes tenantKeyProvider Eq given r
        (serve memoryStore adapters r surroundings shared).1 := by
  -- what every call of the store keeps
  obtain ⟨hkept, hpinned, hsecrets⟩ :
      (serve memoryStore adapters r surroundings shared).2.store.Kept ∧
      (serve memoryStore adapters r surroundings shared).2.store.AllPinned ∧
      ((serve memoryStore adapters r surroundings shared).2.store.hashes,
        (serve memoryStore adapters r surroundings shared).2.store.tenantKeyProvider) =
          (shared.store.hashes, shared.store.tenantKeyProvider) := by
    rcases serve_storeCall adapters r surroundings shared with heq | ⟨call, heq⟩ <;> rw [heq]
    · exact ⟨h.kept, h.pinned, rfl⟩
    · exact ⟨(InMemoryStore.serve_spec h.kept call).1, h.pinned.serve h.kept call,
        InMemoryStore.serve_secrets h.kept call⟩
  cases hnew : newEffect? r (serve memoryStore adapters r surroundings shared).1 with
  | none =>
    obtain ⟨hmoves, hshown⟩ := moves_serve r surroundings hnew
    have hgave := h.moves hkept hpinned hsecrets hmoves
    refine ⟨hgave, .of_old hnew fun record hm => ?_⟩
    obtain ⟨e, hget⟩ := hshown record hm
    obtain ⟨origin, horigin, hsame⟩ := hgave.of_record e record hget
    have hrecord := hpinned.record hget
    obtain ⟨hhashes, hkeys⟩ := Prod.mk.inj hgave.secrets
    rw [hhashes, hkeys] at hrecord
    exact ⟨⟨origin, horigin, hsame.samePayload⟩, hrecord⟩
  | some record =>
    cases r with
    | reserve tenantId request contract =>
      simp only [serve, memoryStore] at hnew hkept hpinned hsecrets ⊢
      rcases shared.store.reserve_cases surroundings.now tenantId request contract with
        ⟨exc, next, heq, -⟩ | ⟨existing, heq, -⟩ |
        ⟨created, heq, hid, htenant, hrequest, hcontract, -, -, -, hfree⟩ <;>
        rw [heq] at hnew hkept hpinned hsecrets ⊢ <;> cases hnew
      -- the ledger has neither the id nor the identity
      have hunused : shared.store.records.get? created.effectId = none :=
        hid ▸ h.kept.unused le_rfl
      have hrecords := InMemoryStore.insertEffect_records
        { shared.store with nextEffectId := shared.store.nextEffectId + 1 } created
      have hgave := h.inserts hkept hpinned hsecrets hunused hrecords
      refine ⟨hgave, fun record' hr => ?_, fun record' hr origin hm => ?_, ?_⟩
      · cases hr
        exact ⟨_, _, _, rfl, htenant, hrequest, hcontract⟩
      · cases hr
        obtain ⟨found, hget, hsame⟩ := h.of_origin origin hm
        constructor
        · intro he
          rw [he, hunused] at hget
          cases hget
        · intro hidentity
          have hfound : shared.store.identity.get? found.identity = some origin.effectId :=
            (h.kept.identity _ _).mpr ⟨found, hget, rfl⟩
          rw [hsame.samePayload.identity, hidentity, EffectRecord.identity, htenant, hrequest,
            hfree] at hfound
          cases hfound
      · refine List.forall_mem_singleton.mpr ⟨⟨created, List.mem_cons_self .., .refl (fun _ => rfl) _⟩, ?_⟩
        have hget : (_ : InMemoryStore).records.get? created.effectId = some created :=
          (hrecords created.effectId).trans (if_pos rfl)
        have hrecord := hpinned.record hget
        obtain ⟨hhashes, hkeys⟩ := Prod.mk.inj hgave.secrets
        rw [hhashes, hkeys] at hrecord
        exact hrecord
    | _ => cases hnew

end

/-! ## The SQLite store -/

/-- A contract is read back as it is, if it can be read at all. -/
def EffectContract.ReadsBack (contract : EffectContract) : Prop :=
  ∀ keyRetention settlementBound,
    durationOfReal (realSeconds contract.keyRetention) = .ok keyRetention →
    durationOfReal (realSeconds contract.settlementBound) = .ok settlementBound →
      { contract with keyRetention, settlementBound } = contract

theorem EffectContract.IsWhole.readsBack {contract : EffectContract} (h : contract.IsWhole) :
    contract.ReadsBack := by
  intro keyRetention settlementBound hkey hbound
  rw [durationOfReal_whole h.1] at hkey
  rw [durationOfReal_whole h.2] at hbound
  cases hkey
  cases hbound
  rfl

/-- The fixed columns of an effect. -/
def fixedRow (origin : EffectRecord) : SqliteEffectRow :=
  (sqliteColumns origin (jsonOf origin.request.arguments) none).fixed

theorem Pinned.normalized {hashes : Hashes} {tenantKeyProvider : TenantKeyProvider}
    {record : EffectRecord} (h : Pinned hashes tenantKeyProvider record)
    (hwf : record.request.arguments.WellFormed) : Pinned hashes tenantKeyProvider
      { record with
        request := { record.request with arguments := Python.normalize record.request.arguments } } :=
  ⟨requestHash_normalize hwf h.hash, h.key⟩

/-- A row is read as the effect that was reserved. -/
theorem payload_of_read {row : SqliteEffectRow} {origin record : EffectRecord}
    (hrow : row.fixed = fixedRow origin) (harguments : Storable origin.request.arguments)
    (hback : origin.contract.ReadsBack) (h : row.toRecord = .ok record) :
    record = { origin with
      request := { origin.request with arguments := Python.normalize origin.request.arguments }
      status := record.status
      version := record.version
      updatedAt := record.updatedAt } := by
  obtain ⟨arguments, hparse, h⟩ := bind_eq_ok.mp h
  obtain ⟨safety, hsafety, h⟩ := bind_eq_ok.mp h
  obtain ⟨keyRetention, hkey, h⟩ := bind_eq_ok.mp h
  obtain ⟨settlementBound, hbound, h⟩ := bind_eq_ok.mp h
  obtain ⟨status, -, h⟩ := bind_eq_ok.mp h
  obtain ⟨createdAt, hcreated, h⟩ := bind_eq_ok.mp h
  obtain ⟨updatedAt, -, h⟩ := bind_eq_ok.mp h
  obtain rfl := Except.ok.inj h
  -- each column that is read is fixed
  rw [show row.argumentsJson = jsonOf origin.request.arguments from
    congrArg SqliteEffectRow.argumentsJson hrow, harguments.parse] at hparse
  rw [show row.safetyClass = origin.contract.safety.value from
    congrArg SqliteEffectRow.safetyClass hrow, safetyOfText_value] at hsafety
  have hcolumn : row.createdAt = origin.createdAt.isoformat := by
    simpa only [SqliteEffectRow.fixed, fixedRow, sqliteColumns] using
      congrArg SqliteEffectRow.createdAt hrow
  rw [hcolumn, parseTime_isoformat] at hcreated
  rw [show row.keyRetentionSeconds = realSeconds origin.contract.keyRetention from
    congrArg SqliteEffectRow.keyRetentionSeconds hrow] at hkey
  rw [show row.settlementBoundSeconds = realSeconds origin.contract.settlementBound from
    congrArg SqliteEffectRow.settlementBoundSeconds hrow] at hbound
  cases hparse
  cases hsafety
  cases hcreated
  have hcontract := hback keyRetention settlementBound hkey hbound
  rw [show row.effectId = origin.effectId from congrArg SqliteEffectRow.effectId hrow,
    show row.tenantId = origin.tenantId from congrArg SqliteEffectRow.tenantId hrow,
    show row.operationKey = origin.request.operationKey from
      congrArg SqliteEffectRow.operationKey hrow,
    show row.tool = origin.request.tool from congrArg SqliteEffectRow.tool hrow,
    show row.requestedBy = origin.request.requestedBy from congrArg SqliteEffectRow.requestedBy hrow,
    show row.traceId = origin.request.traceId from congrArg SqliteEffectRow.traceId hrow,
    show row.requestHash = origin.requestHash from congrArg SqliteEffectRow.requestHash hrow,
    show row.downstreamKey = origin.downstreamKey from congrArg SqliteEffectRow.downstreamKey hrow,
    show row.contractName = origin.contract.name from congrArg SqliteEffectRow.contractName hrow,
    show row.contractVersion = origin.contract.version from
      congrArg SqliteEffectRow.contractVersion hrow,
    show row.retryLimit = origin.contract.retryLimit from congrArg SqliteEffectRow.retryLimit hrow]
  exact congrArg (fun contract => EffectRecord.mk _ _ _ _ _ contract _ _ _ _) hcontract

namespace SqliteStore

/-- The rows are those of the originals, in the order in which they were reserved. -/
structure Gave (hashes : Hashes) (tenantKeyProvider : TenantKeyProvider) (given : List EffectRecord)
    (s : SqliteStore) : Prop where
  secrets : (s.hashes, s.tenantKeyProvider) = (hashes, tenantKeyProvider)
  rows : s.fixed = (given.map fixedRow).reverse
  written : ∀ origin ∈ given, ∃ json, dumps origin.request.arguments = some json
  pinned : ∀ origin ∈ given, Pinned hashes tenantKeyProvider origin

/-- What the tables can hold of an effect: its arguments are a value of Python, and its contract
is read back as it is. -/
def Fit (origin : EffectRecord) : Prop :=
  origin.request.arguments.WellFormed ∧ origin.contract.ReadsBack

section
variable {hashes : Hashes} {tenantKeyProvider : TenantKeyProvider} {given : List EffectRecord}
  {s : SqliteStore} {record : EffectRecord}

/-- A record that is read is of an effect that was reserved, and as pinned. -/
theorem Gave.shows (h : s.Gave hashes tenantKeyProvider given) (hfit : ∀ origin ∈ given, Fit origin)
    (hshows : s.Shows record) :
    (∃ origin ∈ given, SamePayload SameJson origin record) ∧ Pinned hashes tenantKeyProvider record := by
  obtain ⟨row, hrow, hread⟩ := hshows
  rw [h.rows, List.mem_reverse] at hrow
  obtain ⟨origin, hm, hfixed⟩ := List.mem_map.mp hrow
  obtain ⟨hwf, hback⟩ := hfit origin hm
  have hpayload := payload_of_read hfixed.symm ⟨hwf, h.written origin hm⟩ hback hread
  have harguments : record.request.arguments = Python.normalize origin.request.arguments := by
    rw [hpayload]
  refine ⟨⟨origin, hm, ?_, ?_⟩, ?_⟩
  · rw [harguments]
    exact sameJson_normalize _
  · rw [harguments]
    exact hpayload
  · rw [hpayload]
    obtain ⟨hhash, hkey⟩ := (h.pinned origin hm).normalized hwf
    exact ⟨hhash, hkey⟩

end
end SqliteStore

section
variable {Target Decision : Type} {adapters : Adapters Target Decision} {hashes : Hashes}
  {tenantKeyProvider : TenantKeyProvider} {given : List EffectRecord}
  {s s' : SqliteStore} {surroundings : Surroundings Decision} {r : Request} {response : Response r}

/-- The SQLite store answers from what it was given. -/
theorem Leaves.answers (h : Leaves s surroundings r response s')
    (hgave : s.Gave hashes tenantKeyProvider given) :
    s'.Gave hashes tenantKeyProvider ((newEffect? r response).toList ++ given) ∧
      ((∀ origin ∈ (newEffect? r response).toList ++ given, SqliteStore.Fit origin) →
        AnswersFrom hashes tenantKeyProvider SameJson given r response) := by
  cases h with
  | kept hkeeps hshows hnew =>
    rw [hnew]
    refine ⟨⟨hkeeps.secrets.trans hgave.secrets, hkeeps.fixed.trans hgave.rows, hgave.written,
      hgave.pinned⟩, fun hfit => .of_old hnew fun record hm => hgave.shows hfit (hshows record hm)⟩
  | @reserved tenantId request contract record json _ hrecord hjson hfresh hfixed hsecrets =>
    have hnew : ∀ found, newEffect? (.reserve tenantId request contract)
        (.ok ⟨record, true, false⟩ : Except Exc Reservation) = some found → found = record :=
      fun found hf => (Option.some.inj hf).symm
    have hdumps := canonicalJson_eq_ok.mp hjson
    obtain ⟨hhashes, hkeys⟩ := Prod.mk.inj hgave.secrets
    rw [hhashes, hkeys] at hrecord
    obtain ⟨digest, tenantKey, key, hdigest, htenantKey, hkey, rfl⟩ := newRecord_ok hrecord
    have hpinned : Pinned hashes tenantKeyProvider
        { effectId := str "eff_" ++ surroundings.uuid, tenantId, request, requestHash := digest,
          downstreamKey := key, contract, status := .prepared, version := 0,
          createdAt := surroundings.now, updatedAt := surroundings.now } :=
      ⟨hdigest, tenantKey, htenantKey, hkey⟩
    refine ⟨⟨hsecrets.trans hgave.secrets, ?_, ?_, ?_⟩, fun hfit => ⟨fun found hf => ?_,
      fun found hf origin hm => ?_, ?_⟩⟩
    · have hjson : json = jsonOf request.arguments := by
        rw [jsonOf, hdumps]
        rfl
      rw [hfixed, hgave.rows, hjson]
      exact (List.reverse_cons ..).symm
    · exact List.forall_mem_cons.mpr ⟨⟨json, hdumps⟩, hgave.written⟩
    · exact List.forall_mem_cons.mpr ⟨hpinned, hgave.pinned⟩
    · obtain rfl := hnew found hf
      exact ⟨tenantId, request, contract, rfl, rfl, rfl, rfl⟩
    · obtain rfl := hnew found hf
      have hrow : fixedRow origin ∈ s.fixed := by
        rw [hgave.rows, List.mem_reverse]
        exact List.mem_map_of_mem hm
      exact hfresh _ hrow
    · refine List.forall_mem_singleton.mpr ⟨⟨_, List.mem_cons_self .., ?_⟩, hpinned⟩
      exact .refl .refl _

end

/-! ## Both stores -/

section
variable {Target Decision : Type} {adapters : Adapters Target Decision} {hashes : Hashes}
  {tenantKeyProvider : TenantKeyProvider} {target : Target} {given : List EffectRecord}
  {log : List BrokerEvent}

theorem InMemoryStore.Gave.shows {s : InMemoryStore} (h : s.Gave hashes tenantKeyProvider given)
    {tenantId e : Str} {record : EffectRecord} (hget : memoryStore.get s tenantId e = .ok (some record)) :
    ∃ origin ∈ given, SamePayload Eq origin record := by
  obtain ⟨origin, hm, hsame⟩ := h.of_record e record (InMemoryStore.get_some (Except.ok.inj hget))
  exact ⟨origin, hm, hsame.samePayload⟩

theorem memory_accounts {shared : Shared InMemoryStore Target}
    (h : ProtocolRun (memoryBroker adapters) callerProtocol (.initial hashes tenantKeyProvider target)
      shared log) :
    shared.store.Gave hashes tenantKeyProvider (origins log) ∧ Accounts hashes tenantKeyProvider Eq log := by
  have hgave : InMemoryStore.Gave hashes tenantKeyProvider []
      (InMemoryStore.initial hashes tenantKeyProvider) :=
    ⟨InMemoryStore.kept_initial .., List.forall_mem_nil _, rfl,
      fun _ _ hget => absurd hget (Option.some_ne_none _).symm, List.forall_mem_nil _⟩
  obtain ⟨hgave, haccounts⟩ := accounts_of_protocolRun
    (InMemoryStore.Gave hashes tenantKeyProvider) (fun _ => True) hgave (fun hgave r input =>
      ⟨(gave_serve hgave r input).1, fun _ => (gave_serve hgave r input).2⟩) h
  exact ⟨hgave, haccounts fun _ _ => trivial⟩

theorem sqlite_accounts {shared : Shared SqliteStore Target}
    (h : ProtocolRun (sqliteBroker adapters) callerProtocol
      (.initialSqlite hashes tenantKeyProvider target) shared log) :
    shared.store.Gave hashes tenantKeyProvider (origins log) ∧
      ((∀ origin ∈ origins log, SqliteStore.Fit origin) →
        Accounts hashes tenantKeyProvider SameJson log) := by
  have hgave : SqliteStore.Gave hashes tenantKeyProvider []
      (SqliteStore.initial hashes tenantKeyProvider) :=
    ⟨rfl, rfl, List.forall_mem_nil _, List.forall_mem_nil _⟩
  obtain ⟨⟨-, hgave⟩, haccounts⟩ := accounts_of_protocolRun
    (fun given s => s.OneRowEach ∧ s.Gave hashes tenantKeyProvider given) SqliteStore.Fit
    ⟨List.nodup_nil, hgave⟩ (fun hgave r input =>
      have hleaves := (serve_sqlite hgave.1 r input).2
      ⟨⟨hleaves.oneRowEach hgave.1, (hleaves.answers hgave.2).1⟩, (hleaves.answers hgave.2).2⟩) h
  exact ⟨hgave, haccounts⟩

end

/-- **Every attempt carries the reserved payload and one key**: always over the in-memory store,
and over the SQLite store as long as each effect is created with a contract that is read back
as it is. -/
theorem attempts_carry_payload {Target Decision : Type} (adapters : Adapters Target Decision)
    (hashes : Hashes) (tenantKeyProvider : TenantKeyProvider) (target : Target) :
    (∀ w, (memoryBroker adapters).Reachable (.initial hashes tenantKeyProvider target) w →
      CarriesPayload memoryStore hashes tenantKeyProvider Eq w) ∧
    ∀ w, (sqliteBroker adapters).Reachable (.initialSqlite hashes tenantKeyProvider target) w →
      (∀ origin ∈ origins w.log, SqliteStore.Fit origin) →
        CarriesPayload sqliteStore hashes tenantKeyProvider SameJson w := by
  constructor
  · intro w hw
    obtain ⟨hgave, haccounts⟩ := memory_accounts (reachable_runs hw).1
    exact haccounts.carriesPayload fun tenantId e record hget => hgave.shows hget
  · intro w hw hfit
    obtain ⟨hgave, haccounts⟩ := sqlite_accounts (reachable_sqlite_runs hw)
    refine (haccounts hfit).carriesPayload fun tenantId e record hget => ?_
    exact (hgave.shows hfit (SqliteStore.get_some hget).1).1

/-- The world over an empty database, after a caller has submitted the sample operation. -/
def reservedWorld (contract : EffectContract) :
    World Response Exc Procedure Reply (Shared SqliteStore Unit) :=
  (sqliteBroker anyAdapters).after (World.initial (.initialSqlite sampleHashes sampleKeys ()))
    (submitSample 0 contract ⟨sampleTime 0, str "1", .ok (), .ok ⟨.ok true, .ok .none, .ok []⟩,
      .error (.other [] [])⟩)

theorem reservedWorld_reachable (contract : EffectContract) :
    (sqliteBroker anyAdapters).Reachable (.initialSqlite sampleHashes sampleKeys ())
      (reservedWorld contract) :=
  System.reachableFrom_after _ _ _

/-- The sample operation is submitted and claimed, and its adapter is called. -/
def dispatchSample : List (Choice Procedure (Surroundings AnyAnswer)) :=
  let surroundings : Surroundings AnyAnswer :=
    ⟨sampleTime 0, str "1", .ok (), .ok ⟨.ok true, .ok .none, .ok []⟩, .error (.other [] [])⟩
  submitSample 0 (sampleContract .idempotent 0) surroundings ++ claimSample 1 (sampleTime 0) surroundings

/-- The records that adapters have been called with, the newest first. -/
def presentedIn (log : List BrokerEvent) : List EffectRecord :=
  log.filterMap fun
    | .began _ r => r.presented?
    | _ => none

theorem mem_presentedIn {log : List BrokerEvent} {record : EffectRecord}
    (h : record ∈ presentedIn log) : Presented log record := by
  obtain ⟨event, hm, hrecord⟩ := List.mem_filterMap.mp h
  cases event with
  | began c r => exact ⟨c, r, hm, hrecord⟩
  | called | landed | answered | stopped => cases hrecord

/-- The sample contract, and arguments that can be read back. -/
def isSample (origin : EffectRecord) : Bool :=
  origin.contract = sampleContract .idempotent 0 &&
    match origin.request.arguments with
    | .dict [(.str _, .int _)] => true
    | _ => false

theorem fit_of_isSample {origin : EffectRecord} (h : isSample origin = true) :
    SqliteStore.Fit origin := by
  obtain ⟨hcontract, harguments⟩ := Bool.and_eq_true_iff.mp h
  constructor
  · split at harguments
    · rename_i heq
      rw [heq]
      exact ⟨List.nodup_singleton _, trivial, trivial⟩
    · cases harguments
  · rw [of_decide_eq_true hcontract]
    refine EffectContract.IsWhole.readsBack ⟨fun d hd => ?_, fun d hd => ?_⟩
    · cases hd
      decide
    · cases hd
      decide

/-- Runs over both stores in which the reserved record is presented to an adapter. -/
theorem attempts_carry_payload_sample :
    let w := sampleWorld dispatchSample
    let w' := (sqliteBroker anyAdapters).after (World.initial (.initialSqlite sampleHashes sampleKeys ()))
      dispatchSample
    (presentedIn w.log).map (fun record => (record.effectId, record.version)) = [(effectIdOf 1, 2)] ∧
    (presentedIn w'.log).map (fun record => (record.effectId, record.version)) = [(str "eff_1", 2)] ∧
    (∀ record ∈ presentedIn w.log, Pinned sampleHashes sampleKeys record) ∧
    (∀ record ∈ presentedIn w'.log, Pinned sampleHashes sampleKeys record) ∧
    CarriesPayload memoryStore sampleHashes sampleKeys Eq w ∧
    CarriesPayload sqliteStore sampleHashes sampleKeys SameJson w' := by
  intro w w'
  obtain ⟨hmemory, hsqlite⟩ := attempts_carry_payload anyAdapters sampleHashes sampleKeys ()
  have hfit : (origins w'.log).all isSample = true := by decide +kernel
  have hcarries := hmemory w (sampleWorld_reachable _)
  have hcarries' := hsqlite w' (System.reachableFrom_after _ _ _)
    fun origin hm => fit_of_isSample (List.all_eq_true.mp hfit origin hm)
  exact ⟨by decide +kernel, by decide +kernel, fun record hm => hcarries.pinned record (mem_presentedIn hm),
    fun record hm => hcarries'.pinned record (mem_presentedIn hm), hcarries, hcarries'⟩

/-- A retention of some three hundred years and a microsecond. -/
def longRetention : Timedelta := ⟨9504000000000001, by decide, by decide⟩

/-- The retention that is read back. -/
def driftedRetention : Timedelta := ⟨9504000000000002, by decide, by decide⟩

def longContract : EffectContract :=
  { sampleContract .idempotent 0 with keyRetention := some longRetention }

/-- A microsecond is lost in a float of so many seconds: the contract that is read is not the
one that was reserved. -/
theorem retention_drifts : ∃ w : World Response Exc Procedure Reply (Shared SqliteStore Unit),
    (sqliteBroker anyAdapters).Reachable (.initialSqlite sampleHashes sampleKeys ()) w ∧
    (∀ origin ∈ origins w.log, origin.request.arguments.WellFormed) ∧
    ¬CarriesPayload sqliteStore sampleHashes sampleKeys SameJson w := by
  have horigins : origins (reservedWorld longContract).log = [newSample longContract] := rfl
  refine ⟨reservedWorld longContract, reservedWorld_reachable _, ?_, fun h => ?_⟩
  · rw [horigins]
    exact List.forall_mem_singleton.mpr ⟨List.nodup_singleton _, trivial, trivial⟩
  · obtain ⟨drifted, hread, hne⟩ : ∃ drifted,
        ((sqliteStore.get (reservedWorld longContract).shared.store sampleTenant
          (str "eff_1")).toOption.bind id).map EffectRecord.contract = some drifted ∧
        drifted ≠ longContract := by
      refine ⟨{ longContract with keyRetention := some driftedRetention }, ?_, ?_⟩ <;> decide +kernel
    obtain ⟨record, hfound, rfl⟩ := Option.map_eq_some_iff.mp hread
    obtain ⟨found, hget, hsome⟩ := Option.bind_eq_some_iff.mp hfound
    obtain rfl : found = some record := hsome
    have hshown : Readable sqliteStore (reservedWorld longContract) record := by
      refine .inr ⟨sampleTenant, str "eff_1", ?_⟩
      cases hresult : sqliteStore.get (reservedWorld longContract).shared.store sampleTenant
        (str "eff_1") with
      | error exc =>
        rw [hresult] at hget
        cases hget
      | ok found =>
        rw [hresult] at hget
        exact congrArg Except.ok (Option.some.inj hget)
    obtain ⟨origin, hm, hsame⟩ := h.unchanged record hshown
    rw [horigins] at hm
    obtain rfl := List.mem_singleton.mp hm
    exact hne (congrArg EffectRecord.contract hsame.others)

end EffectBroker
