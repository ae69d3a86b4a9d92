import EffectBroker.PostgresTransactions

/-!
# Reservations of the Postgres store

`reserve` inserts the row of a new effect.  Where an operation has a row already, also one
that another transaction has inserted and not committed yet, the insert waits and then does
nothing, and what is there is replied.  So racing reservations of an operation have one
effect.
-/
namespace EffectBroker
open Python Concurrency Transactions

section
variable {jsonb : Jsonb} {L : Discipline (postgres jsonb) PostgresBook} {a : PostgresBook}
  {record : EffectRecord}

/-- Whether `reserve` has inserted the tenant: what it has written and holds. -/
inductive TenantKnown (tenantId : Str) (a : PostgresBook) : List PostgresWrite → Set PostgresKey → Prop
  | old : tenantId ∈ a.tenants → TenantKnown tenantId a [] ∅
  | new : tenantId ∉ a.tenants →
      TenantKnown tenantId a [.tenant tenantId] {k | k ∈ [PostgresKey.tenant tenantId]}

theorem TenantKnown.inOrder {tenantId : Str} {writes : List PostgresWrite} {held : Set PostgresKey}
    (h : TenantKnown tenantId a writes held) {k : PostgresKey} (hk : 0 < k.rank) : InOrder held k := by
  intro k' hk'
  cases h with
  | old => exact absurd hk' (Set.notMem_empty k')
  | new =>
    rw [List.mem_singleton.mp hk']
    exact hk

/-- Tables with a tenant, which is the only one that may be new. -/
structure PostgresTables.WithTenant (s v : PostgresTables) (tenantId : Str) (held : Set PostgresKey) :
    Prop where
  tenant : tenantId ∈ v.tenants
  old : ∀ t ∈ s.tenants, t ∈ v.tenants
  new : ∀ t ∈ v.tenants, t ∈ s.tenants ∨ .tenant t ∈ held
  intents : v.intents = s.intents
  attempts : v.attempts = s.attempts
  receipts : v.receipts = s.receipts
  events : v.events = s.events

/-- The tenant is seen, whatever the others do. -/
theorem TenantKnown.sees (hL : Governs L) {tenantId : Str} {writes : List PostgresWrite}
    {held : Set PostgresKey} (h : TenantKnown tenantId a writes held) {a' : PostgresBook}
    {s : PostgresTables} (hrely : L.rely held a a') (hs : s.Holds jsonb a') :
    s.WithTenant (sees jsonb s writes) tenantId held := by
  cases h with
  | old hm =>
    refine ⟨?_, fun t ht => ht, fun t ht => .inl ht, rfl, rfl, rfl, rfl⟩
    show tenantId ∈ s.tenants
    rw [hs.tenants]
    exact (hL.rely hrely).tenants tenantId hm
  | new hm =>
    refine ⟨List.mem_append_right _ (List.mem_singleton.mpr rfl),
      fun t ht => List.mem_append_left _ ht, fun t ht => ?_, rfl, rfl, rfl, rfl⟩
    rcases List.mem_append.mp ht with ht | ht
    · exact .inl ht
    · exact .inr (List.mem_singleton.mpr (congrArg PostgresKey.tenant (List.mem_singleton.mp ht)))

/-- A tenant with an effect has not just been inserted. -/
theorem TenantKnown.of_ledger (hL : Governs L) {tenantId : Str} {writes : List PostgresWrite}
    {held : Set PostgresKey} (h : TenantKnown tenantId a writes held) {a' : PostgresBook}
    {s : PostgresTables} (hrely : L.rely held a a') (hs : s.Holds jsonb a') {l : EffectLedger}
    (hl : l ∈ a'.book) (htenant : l.record.tenantId = tenantId) : writes = [] ∧ held = ∅ := by
  cases h with
  | old => exact ⟨rfl, rfl⟩
  | new hm =>
    refine absurd ((hL.rely hrely).newTenant tenantId (List.mem_singleton.mpr rfl) ?_) hm
    rw [← htenant]
    exact hs.known l hl

/-- Insert the tenant, if it is new. -/
theorem safe_insertTenant (hL : Governs L) (hwaits : ∀ {held k}, InOrder held k → L.waits held k)
    {tenantId : Str} {Q : Post Exc Unit PostgresWrite PostgresKey PostgresBook}
    (hok : ∀ a' writes held, L.rely ∅ a a' → TenantKnown tenantId a' writes held →
      Q (.ok ()) writes held a') :
    Safe L (PostgresStore.execute (.insertTenant tenantId)) [] ∅ a Q := by
  refine safe_request fun a₁ s₁ oracle locked hrely₁ hholds₁ _ _ => ?_
  have hs₁ := hL.holds hholds₁
  show (∃ k, s₁.insertTenant locked tenantId = _ ∧ _) ∨
    ∃ out, s₁.insertTenant locked tenantId = _ ∧ _
  unfold PostgresTables.insertTenant
  rw [hs₁.tenants]
  by_cases hm : tenantId ∈ a₁.tenants
  · rw [if_pos (List.contains_iff_mem.mpr hm)]
    refine .inr ⟨_, rfl, List.forall_mem_nil _, ?_⟩
    have hheld : (∅ : Set PostgresKey) ∪ {k : PostgresKey | k ∈ ([] : List PostgresKey)} = ∅ := by simp
    dsimp only
    rw [hheld]
    exact hok a₁ _ _ hrely₁ (.old hm)
  · rw [if_neg fun h => hm (List.contains_iff_mem.mp h)]
    by_cases hlocked : locked (.tenant tenantId) = true
    · rw [if_pos hlocked]
      exact .inl ⟨_, rfl, hwaits fun k hk => absurd hk (Set.notMem_empty k)⟩
    · rw [if_neg hlocked]
      refine .inr ⟨_, rfl, fun k hk g hg => ?_, ?_⟩
      · rw [hL.guard] at hg
        rw [List.mem_singleton.mp hk] at hg
        cases hg
      · dsimp only
        rw [Set.empty_union]
        exact hok a₁ _ _ hrely₁ (.new hm)

/-- The row of an operation is in the tables if the book has it. -/
theorem PostgresTables.Holds.hasIdentity {s : PostgresTables} (h : s.Holds jsonb a)
    (tenantId operationKey : Str) :
    s.hasIdentity tenantId operationKey = (a.book.reserved tenantId operationKey).isSome := by
  unfold PostgresTables.hasIdentity Book.reserved
  rw [h.intents, List.any_map, List.isSome_find?]
  exact List.any_congr rfl fun l => decide_eq_decide.mpr Prod.mk_inj.symm

theorem PostgresTables.Holds.selectIdentity {s : PostgresTables} (h : s.Holds jsonb a)
    (tenantId operationKey : Str) :
    (s.intents.filter fun r => r.tenantId = tenantId ∧ r.operationKey = operationKey) =
      (a.book.reserved tenantId operationKey).toList.map jsonb.effectRow := by
  rw [h.intents, List.filter_map]
  have hsame : ((fun r : IntentRow => decide (r.tenantId = tenantId ∧ r.operationKey = operationKey)) ∘
      jsonb.effectRow) = fun l : EffectLedger => decide (l.identity = (tenantId, operationKey)) :=
    funext fun l => decide_eq_decide.mpr Prod.mk_inj.symm
  rw [hsame]
  cases hl : a.book.reserved tenantId operationKey with
  | none =>
    have hnone : (a.book.filter fun l => decide (l.identity = (tenantId, operationKey))) = [] :=
      List.filter_eq_nil_iff.mpr fun l hm hid =>
        Book.reserved_eq_none.mp hl l hm (of_decide_eq_true hid)
    rw [hnone]
    rfl
  | some l =>
    obtain ⟨hm, hidentity⟩ := Book.mem_of_reserved hl
    rw [← hidentity, Book.filter_of_nodup h.good.identities hm]
    rfl

section
variable {hashes : Hashes} {tenantKeyProvider : TenantKeyProvider} {b : Book} {now : Datetime}
  {uuid tenantId : Str} {request : EffectRequest} {contract : EffectContract} {l : EffectLedger}

/-- An operation that has an effect is replayed, or is in conflict with it. -/
theorem Book.reserve_found
    (hnew : newRecord hashes tenantKeyProvider now uuid tenantId request contract = .ok record)
    (hl : b.reserved tenantId request.operationKey = some l) :
    b.reserve hashes tenantKeyProvider now uuid tenantId request contract =
      if l.record.requestHash ≠ record.requestHash then
        .error (.payloadConflict request.operationKey l.record.requestHash record.requestHash)
      else .ok (⟨l.record, false, true⟩, b) := by
  unfold Book.reserve
  rw [hnew, ok_bind]
  simp only [hl]

/-- A new operation gets a new effect. -/
theorem Book.reserve_fresh
    (hnew : newRecord hashes tenantKeyProvider now uuid tenantId request contract = .ok record)
    (hnone : b.reserved tenantId request.operationKey = none)
    (hfresh : b.ledger record.effectId = none) :
    b.reserve hashes tenantKeyProvider now uuid tenantId request contract =
      .ok (⟨record, true, false⟩, b ++ [.reserved record]) := by
  unfold Book.reserve
  rw [hnew, ok_bind]
  simp only [hnone]
  rw [hfresh, if_neg (by simp)]

end

/-! ## `reserve` -/

/-- Why `reserve` raises: as the book does, or the id of the new effect is taken, or what it
has inserted cannot be read. -/
inductive ReserveRaises (jsonb : Jsonb) (secrets : Secrets) (c : TimedCall) (tenantId : Str)
    (request : EffectRequest) (contract : EffectContract) : Exc → Book → Prop
  | invalid {exc b} : newRecord secrets.1 secrets.2 c.now c.uuid tenantId request contract = .error exc →
      ReserveRaises jsonb secrets c tenantId request contract exc b
  | conflict {found new b} :
      newRecord secrets.1 secrets.2 c.now c.uuid tenantId request contract = .ok new →
      b.reserved tenantId request.operationKey = some found →
      found.record.requestHash ≠ new.requestHash →
      ReserveRaises jsonb secrets c tenantId request contract
        (.payloadConflict request.operationKey found.record.requestHash new.requestHash) b
  | effectId {new b} :
      newRecord secrets.1 secrets.2 c.now c.uuid tenantId request contract = .ok new →
      (b.ledger new.effectId).isSome →
      ReserveRaises jsonb secrets c tenantId request contract (violates .intentsPkey) b
  | unreadable {new exc b} :
      newRecord secrets.1 secrets.2 c.now c.uuid tenantId request contract = .ok new →
      jsonb.read new = .error exc → ReserveRaises jsonb secrets c tenantId request contract exc b

/-- What `reserve` does: it replies an effect that the operation has already, and writes
nothing; or its commit adds a new one. -/
def Reserves (L : Discipline (postgres jsonb) PostgresBook) (secrets : Secrets) (c : TimedCall)
    (tenantId : Str) (request : EffectRequest) (contract : EffectContract) :
    Post Exc Reservation PostgresWrite PostgresKey PostgresBook := fun result writes held a =>
  match result with
  | .ok reservation => ∃ record,
      newRecord secrets.1 secrets.2 c.now c.uuid tenantId request contract = .ok record ∧
      ((writes = [] ∧ held = ∅ ∧ reservation.created = false ∧ reservation.replayed = true ∧
          a.book.Unique ∧ ∃ l, a.book.reserved tenantId request.operationKey = some l ∧
            l.record.requestHash = record.requestHash ∧
            jsonb.read l.record = .ok reservation.effect) ∨
        (reservation.created = true ∧ reservation.replayed = false ∧
          jsonb.read record = .ok reservation.effect ∧ ∀ a' s, L.rely held a a' → s.Holds jsonb a' →
            a'.book.reserved tenantId request.operationKey = none ∧
            a'.book.ledger record.effectId = none ∧ ∃ tenants,
              (sees jsonb s writes).Holds jsonb
                { a' with tenants, book := a'.book ++ [.reserved record] } ∧
              ∀ others, Disjoint held others →
                a'.Rely others { a' with tenants, book := a'.book ++ [.reserved record] }))
  | .error exc => ReserveRaises jsonb secrets c tenantId request contract exc a.book

variable {secrets : Secrets} {c : TimedCall} {tenantId : Str} {request : EffectRequest}
  {contract : EffectContract}

/-- Where the operation has an effect already, it is replayed or in conflict. -/
theorem safe_reserveExisting (hL : Governs L)
    (hnew : newRecord secrets.1 secrets.2 c.now c.uuid tenantId request contract = .ok record)
    (hfound : ∃ l, a.book.reserved tenantId request.operationKey = some l) {s : PostgresTables}
    (hs : s.Holds jsonb a) :
    Safe L (PostgresStore.reserveExisting record) [] ∅ a
      (Reserves L secrets c tenantId request contract) := by
  obtain ⟨digest, tenantKey, key, -, -, -, hrecord⟩ := newRecord_ok hnew
  obtain rfl : record.tenantId = tenantId := by rw [hrecord]
  obtain rfl : record.request = request := by rw [hrecord]
  clear hrecord
  obtain ⟨l, hl⟩ := hfound
  unfold PostgresStore.reserveExisting PostgresStore.selectByIdentity
  rw [safe_bind, safe_bind]
  refine safe_read (fun _ _ _ => rfl) fun a₁ s₁ hrely₁ hholds₁ => ?_
  have hs₁ := hL.holds hholds₁
  -- the row of the operation does not disappear
  obtain ⟨l₁, hl₁, -⟩ := (hL.rely hrely₁).reserved hs.good.toUnique hs₁.good.toUnique hl
  have hrows := hs₁.selectIdentity record.tenantId record.request.operationKey
  rw [hl₁] at hrows
  obtain ⟨hm, hidentity⟩ := Book.mem_of_reserved hl₁
  obtain ⟨read, hread⟩ := hs₁.readable l₁ hm
  obtain ⟨arguments, keyRetention, settlementBound, hreads⟩ := Jsonb.read_ok hread
  have hhash : read.requestHash = l₁.record.requestHash := by rw [hreads]
  dsimp only
  rw [Database.view_nil, hrows]
  show Safe L (PostgresStore.compute (jsonb.effectRow l₁).toRecord >>= fun record => pure (some record))
    [] ∅ a₁ _
  rw [safe_bind, toRecord_jsonbRow, hread, safe_ofExcept]
  show Safe L (if read.requestHash ≠ record.requestHash then _ else _) [] ∅ a₁ _
  rw [hhash]
  by_cases hsame : l₁.record.requestHash = record.requestHash
  · rw [if_neg (not_not.mpr hsame)]
    exact ⟨record, hnew, .inl ⟨rfl, rfl, rfl, rfl, hs₁.good.toUnique, l₁, hl₁, hsame, hread⟩⟩
  · rw [if_pos hsame]
    exact .conflict hnew hl₁ hsame

/-- What `reserve` has written once it has inserted the row of the effect. -/
abbrev Jsonb.insertWrites (jsonb : Jsonb) (record : EffectRecord) (writes : List PostgresWrite) :
    List PostgresWrite := writes ++ [.intent (jsonb.effectRow (.reserved record))]

/-- The keys that it holds then. -/
abbrev insertKeys (record : EffectRecord) (held : Set PostgresKey) : Set PostgresKey :=
  held ∪ {k | k ∈ [PostgresKey.identity record.tenantId record.request.operationKey,
    .row record.effectId]}

/-- With the row of the effect, its first event makes it one of the book. -/
theorem safe_reserved (hL : Governs L)
    (hnew : newRecord secrets.1 secrets.2 c.now c.uuid tenantId request contract = .ok record)
    (harguments : Storable record.request.arguments) {writes : List PostgresWrite}
    {held : Set PostgresKey} {b : PostgresBook} (hknown : TenantKnown tenantId b writes held)
    (hrely : L.rely held b a) (hfresh : a.book.ledger record.effectId = none)
    (hidentity : a.book.reserved tenantId request.operationKey = none) :
    Safe L (PostgresStore.appendEvent record.effectId .reserved record.version
          [(text "status", .str record.status.value)] c.now >>= fun _ =>
        PostgresStore.compute (jsonb.effectRow (.reserved record)).toRecord >>= fun effect =>
          pure ⟨effect, true, false⟩)
      (jsonb.insertWrites record writes) (insertKeys record held) a
      (Reserves L secrets c tenantId request contract) := by
  obtain ⟨digest, tenantKey, key, -, -, -, hrecord⟩ := newRecord_ok hnew
  have hstatus : record.status = .prepared := by rw [hrecord]
  have hversion : record.version = 0 := by rw [hrecord]
  have hcreated : record.createdAt = c.now := by rw [hrecord]
  obtain rfl : record.tenantId = tenantId := by rw [hrecord]
  obtain rfl : record.request = request := by rw [hrecord]
  clear hrecord
  have hrow : PostgresKey.row record.effectId ∈ insertKeys record held :=
    .inr (List.mem_cons_of_mem _ (List.mem_singleton.mpr rfl))
  -- nobody else makes anything of the effect or of its operation
  have hnone : ∀ a', L.rely (insertKeys record held) a a' → a'.book.ledger record.effectId = none ∧
      a'.book.reserved record.tenantId record.request.operationKey = none := by
    intro a' h
    refine ⟨((hL.rely h).row record.effectId hrow).trans hfresh, ?_⟩
    exact (hL.rely h).identity _ _ (.inr (List.mem_cons_self ..)) hidentity
  have hsees : ∀ a' (s : PostgresTables), L.rely (insertKeys record held) a a' → s.Holds jsonb a' →
      s.WithTenant (sees jsonb s writes) record.tenantId held :=
    fun a' s h hs => hknown.sees hL (L.trans hrely (hL.weaken Set.subset_union_left h)) hs
  have hdata := storable_reserved record
  rw [safe_bind]
  refine safe_appendEvent hL (n := 0) hrow hdata.wellFormed (fun a' s h hs => ?_)
    (fun _ a₁ h₁ => ?_) fun exc a₁ _ hraise => ?_
  · have hevents := (hsees a' s h hs).events
    constructor
    · unfold PostgresTables.Numbered
      rw [sees_append]
      show (List.filter _ (sees jsonb s writes).events).map _ = _
      rw [hevents, hs.events, Book.eventsOf, (hnone a' h).1]
      rfl
    · rw [sees_append]
      unfold PostgresTables.hasIntent
      refine List.any_eq_true.mpr ⟨jsonb.effectRow (.reserved record), ?_, decide_eq_true rfl⟩
      exact List.mem_append_right _ (List.mem_singleton.mpr rfl)
  · have hreads : (jsonb.effectRow (.reserved record)).toRecord = jsonb.read record := rfl
    dsimp only
    rw [hreads, safe_bind, safe_ofExcept]
    cases hread : jsonb.read record with
    | error exc => exact .unreadable hnew hread
    | ok effect =>
      refine ⟨record, hnew, .inr ⟨rfl, rfl, hread, fun a' s h' hs => ?_⟩⟩
      have h := L.trans h₁ (hL.weaken Set.subset_union_left h')
      obtain ⟨hfresh', hidentity'⟩ := hnone a' h
      have htenant := hsees a' s h hs
      have hsame := hs.tenants
      refine ⟨hidentity', hfresh', (sees jsonb s writes).tenants, ?_, fun others hdisjoint => ?_⟩
      · refine hs.append hfresh' hidentity' hstatus hversion harguments ⟨effect, hread⟩ (fun t ht => ?_)
          htenant.tenant ?_ ?_ ?_ ?_ ?_ (List.forall_mem_singleton.mpr hdata)
        · rw [← hsame] at ht
          exact htenant.old t ht
        · rw [sees_append, sees_append]
          rfl
        · rw [sees_append, sees_append, ← htenant.intents]
          rfl
        · rw [sees_append, sees_append, ← htenant.attempts]
          rfl
        · rw [sees_append, sees_append, ← htenant.receipts]
          rfl
        · rw [sees_append, sees_append, ← htenant.events, ← hcreated]
          rfl
      · refine .of_append (fun t ht => ?_) (fun t ht => ?_) ?_ ?_
        · rw [← hsame] at ht
          exact htenant.old t ht
        · rw [← hsame]
          refine (htenant.new t ht).imp_right fun hheld => ?_
          exact Set.disjoint_left.mp hdisjoint (.inl (.inl hheld))
        · exact Set.disjoint_left.mp hdisjoint (.inl hrow)
        · exact Set.disjoint_left.mp hdisjoint (.inl (.inr (List.mem_cons_self ..)))
  · rw [(jsonValue_eq_ok hdata.wellFormed).mpr ⟨hdata, rfl⟩] at hraise
    cases hraise

/-- Insert the row of a new effect: the operation has an effect already, the id is taken, or
the row is there, and the keys of both are held. -/
theorem insertIntent_cases (hL : Governs L) (hwaits : ∀ {held k}, InOrder held k → L.waits held k)
    {writes : List PostgresWrite} {held : Set PostgresKey} {b : PostgresBook}
    (hknown : TenantKnown record.tenantId b writes held) (hrely : L.rely held b a)
    {s : PostgresTables} (hs : s.Holds jsonb a) {locked : PostgresKey → Bool}
    (hclear : Clear L.guard held locked) {row : IntentRow}
    (hrow : jsonb.intent row = jsonb.effectRow (.reserved record)) (hid : row.effectId = record.effectId)
    (htenant : row.tenantId = record.tenantId)
    (hoperation : row.operationKey = record.request.operationKey) :
    (∃ k, (sees jsonb s writes).insertIntent jsonb locked row = .error k ∧ L.waits held k) ∨
    ((a.book.reserved record.tenantId record.request.operationKey).isSome ∧
      (sees jsonb s writes).insertIntent jsonb locked row = .ok ⟨.ok [], [], []⟩) ∨
    (a.book.ledger record.effectId).isSome ∧ (sees jsonb s writes).insertIntent jsonb locked row =
      .ok ⟨.error (violates .intentsPkey), [],
        [.identity record.tenantId record.request.operationKey]⟩ ∨
    (a.book.reserved record.tenantId record.request.operationKey = none ∧
      a.book.ledger record.effectId = none ∧ (sees jsonb s writes).insertIntent jsonb locked row =
        .ok ⟨.ok [jsonb.effectRow (.reserved record)], [.intent (jsonb.effectRow (.reserved record))],
          [.identity record.tenantId record.request.operationKey, .row record.effectId]⟩) := by
  have hview := hknown.sees hL hrely hs
  have hidentity : (sees jsonb s writes).hasIdentity record.tenantId record.request.operationKey =
      (a.book.reserved record.tenantId record.request.operationKey).isSome := by
    rw [← hs.hasIdentity]
    unfold PostgresTables.hasIdentity
    rw [hview.intents]
  have hintent : (sees jsonb s writes).hasIntent record.effectId =
      (a.book.ledger record.effectId).isSome := by
    unfold PostgresTables.hasIntent Book.ledger
    rw [hview.intents, hs.intents, List.any_map, List.isSome_find?]
    rfl
  unfold PostgresTables.insertIntent
  rw [htenant, hoperation, hidentity, hrow]
  by_cases hfound : (a.book.reserved record.tenantId record.request.operationKey).isSome = true
  · rw [if_pos hfound]
    exact .inr (.inl ⟨hfound, rfl⟩)
  · rw [if_neg hfound]
    by_cases hlocked : locked (.identity record.tenantId record.request.operationKey) = true
    · rw [if_pos hlocked]
      exact .inl ⟨_, rfl, hwaits (hknown.inOrder Nat.one_pos)⟩
    · rw [if_neg hlocked]
      have hkeys : ∀ check ∈ (sees jsonb s writes).intentChecks row, MayTake L held check.key := by
        refine List.forall_mem_cons.mpr ⟨.inr (.inr (hwaits (hknown.inOrder ?_))),
          List.forall_mem_singleton.mpr (.inr (.inr (hwaits (hknown.inOrder ?_))))⟩
        · show 0 < 3
          omega
        · show 0 < 2
          omega
      rcases insertChecked_cases (.intent (jsonb.effectRow (.reserved record))) hL hclear hkeys with
        ⟨k, hwait, hk⟩ | ⟨check, hc, hviolated, hinsert⟩ | ⟨hall, hinsert⟩
      · rw [hwait]
        exact .inl ⟨k, rfl, hk⟩
      · rcases List.mem_cons.mp hc with rfl | hc
        · rw [hinsert]
          have hviolated : (sees jsonb s writes).hasIntent row.effectId = true := hviolated
          rw [hid, hintent] at hviolated
          exact .inr (.inr (.inl ⟨hviolated, rfl⟩))
        · -- the tenant is there
          obtain rfl := List.mem_singleton.mp hc
          have hviolated : (!(sees jsonb s writes).tenants.contains row.tenantId) = true := hviolated
          rw [htenant, List.contains_iff_mem.mpr hview.tenant] at hviolated
          cases hviolated
      · rw [hinsert]
        have hpkey : (sees jsonb s writes).hasIntent row.effectId = false :=
          hall _ (List.mem_cons_self ..)
        rw [hid, hintent] at hpkey
        refine .inr (.inr (.inr ⟨?_, ?_, ?_⟩))
        · exact Option.not_isSome_iff_eq_none.mp hfound
        · exact Option.not_isSome_iff_eq_none.mp (Bool.eq_false_iff.mp hpkey)
        · unfold PostgresTables.intentChecks
          rw [hid]
          rfl

theorem safe_reserve (hL : Governs L) (hwaits : ∀ {held k}, InOrder held k → L.waits held k)
    (hwf : request.arguments.WellFormed) :
    Safe L (PostgresStore.reserve secrets.1 secrets.2 c.now c.uuid tenantId request contract) [] ∅ a
      (Reserves L secrets c tenantId request contract) := by
  unfold PostgresStore.reserve
  rw [safe_bind, safe_ofExcept]
  cases hnew : newRecord secrets.1 secrets.2 c.now c.uuid tenantId request contract with
  | error exc => exact .invalid hnew
  | ok record =>
    obtain ⟨digest, tenantKey, key, hdigest, -, -, hrecord⟩ := newRecord_ok hnew
    obtain ⟨json, hjson⟩ := dumps_of_requestHash hdigest
    obtain rfl : record.tenantId = tenantId := by rw [hrecord]
    obtain rfl : record.request = request := by rw [hrecord]
    clear hrecord
    have harguments : Storable record.request.arguments := ⟨hwf, json, hjson⟩
    have hvalues : recordValues record =
        .ok (intentColumns record (normalize record.request.arguments)) := by
      unfold recordValues
      rw [(jsonValue_eq_ok hwf).mpr ⟨harguments, rfl⟩]
      rfl
    dsimp only
    rw [safe_bind]
    refine safe_insertTenant hL hwaits fun a₁ writes held hrely₁ hknown => ?_
    dsimp only
    rw [hvalues, safe_bind, safe_ofExcept]
    dsimp only
    rw [safe_bind]
    refine safe_request fun a₂ s₂ oracle locked hrely₂ hholds₂ _ hclear => ?_
    have hs₂ := hL.holds hholds₂
    have hrow : jsonb.intent (intentColumns record (normalize record.request.arguments)) =
        jsonb.effectRow (.reserved record) := rfl
    rcases insertIntent_cases hL hwaits hknown hrely₂ hs₂ hclear hrow rfl rfl rfl with
      ⟨k, hwait, hk⟩ | ⟨hfound, hinsert⟩ | ⟨hfound, hinsert⟩ | ⟨hnone, hfresh, hinsert⟩
    · exact .inl ⟨k, hwait, hk⟩
    · -- the operation has an effect, so its tenant was there and nothing has been written
      obtain ⟨l, hl⟩ := Option.isSome_iff_exists.mp hfound
      obtain ⟨hm, hidentity⟩ := Book.mem_of_reserved hl
      obtain ⟨rfl, rfl⟩ := hknown.of_ledger hL hrely₂ hs₂ hm (congrArg Prod.fst hidentity)
      refine .inr ⟨_, hinsert, List.forall_mem_nil _, ?_⟩
      have hheld : (∅ : Set PostgresKey) ∪ {k : PostgresKey | k ∈ ([] : List PostgresKey)} = ∅ := by
        simp
      dsimp only
      rw [hheld]
      exact safe_reserveExisting hL hnew ⟨l, hl⟩ hs₂
    · refine .inr ⟨_, hinsert, fun k hk g hg => ?_, .effectId hnew hfound⟩
      rw [hL.guard, List.mem_singleton.mp hk] at hg
      cases hg
    · refine .inr ⟨_, hinsert, fun k hk g hg => ?_, ?_⟩
      · rw [hL.guard] at hg
        rcases List.mem_cons.mp hk with rfl | hk
        · cases hg
        · rw [List.mem_singleton.mp hk] at hg
          cases hg
      · exact safe_reserved hL hnew harguments hknown hrely₂ hfresh hnone

end
end EffectBroker
