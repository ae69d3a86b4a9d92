import EffectBroker.SqliteBook

/-!
# The calls of the SQLite store

Each call of the SQLite store does to the book in its tables what the call of a book does,
and replies what is read back.  It may raise for reasons of its own: a text that has no
encoding, an integer of more than 64 bits, or a duration that a float cannot hold.
-/
namespace EffectBroker
open Python Refinement

/-! ## The data of events -/

theorem storable_str (s : Str) : Storable (.str s) := ⟨trivial, _, rfl⟩

theorem storable_int (z : Int) : Storable (.int z) := ⟨trivial, _, rfl⟩

theorem encodable_json_str {s : Str} : Python.Encodable (jsonOf (.str s)) ↔ Python.Encodable s := encodable_quote

theorem encodable_status (status : EffectStatus) : Python.Encodable status.value := by
  cases status <;> exact encodable_str _

theorem encodable_json_int (z : Int) : Python.Encodable (jsonOf (.int z)) := encodable_decimalInt z

/-- A dictionary with these keys and values. -/
abbrev dictWith (items : List (Str × Value)) : Items := items.map fun item => (.str item.1, item.2)

section
variable (items : List (Str × Value))

theorem dumpsItems_dictWith (h : ∀ item ∈ items, Storable item.2) :
    dumpsItems (dictWith items) = some (items.map fun item => (item.1, jsonOf item.2)) := by
  induction items with
  | nil => rfl
  | cons item items ih =>
    obtain ⟨hitem, hrest⟩ := List.forall_mem_cons.mp h
    show dumpsItems ((.str item.1, item.2) :: dictWith items) = _
    rw [dumpsItems, hitem.dumps, ih hrest]
    rfl

theorem itemsWellFormed_dictWith (h : ∀ item ∈ items, Storable item.2) :
    Value.ItemsWellFormed (dictWith items) := by
  induction items with
  | nil => trivial
  | cons item items ih =>
    obtain ⟨hitem, hrest⟩ := List.forall_mem_cons.mp h
    exact ⟨hitem.wellFormed, ih hrest⟩

theorem Storable.dict (hkeys : (items.map Prod.fst).Nodup) (h : ∀ item ∈ items, Storable item.2) :
    Storable (.dict (dictWith items)) := by
  refine ⟨⟨?_, itemsWellFormed_dictWith items h⟩, ?_⟩
  · rw [List.map_map]
    have hstr : Function.Injective Value.str := fun _ _ he => Value.str.inj he
    have hmap := hkeys.map hstr
    rwa [List.map_map] at hmap
  · rw [Python.dumps, dumpsItems_dictWith items h]
    exact ⟨_, rfl⟩

theorem encodable_json_dict (h : ∀ item ∈ items, Storable item.2) :
    Python.Encodable (jsonOf (.dict (dictWith items))) ↔
      ∀ item ∈ items, Python.Encodable item.1 ∧ Python.Encodable (jsonOf item.2) := by
  have hparts := dumpsItems_dictWith items h
  have hdumps : dumps (.dict (dictWith items)) = some (jsonOf (.dict (dictWith items))) := by
    rw [jsonOf, Python.dumps, hparts]
    rfl
  rw [encodable_dumps_dict hparts hdumps]
  exact List.forall_mem_map

end

theorem storable_reserved (record : EffectRecord) :
    Storable (.dict [(text "status", .str record.status.value)]) :=
  .dict ([(str "status", .str record.status.value)]) (List.nodup_singleton _)
    (List.forall_mem_singleton.mpr (storable_str _))

theorem encodable_reserved (record : EffectRecord) :
    Python.Encodable (jsonOf (.dict [(text "status", .str record.status.value)])) := by
  refine (encodable_json_dict ([(str "status", .str record.status.value)])
    (List.forall_mem_singleton.mpr (storable_str _))).mpr ?_
  refine List.forall_mem_singleton.mpr ⟨encodable_str _, encodable_json_str.mpr ?_⟩
  exact encodable_status record.status

theorem storable_claimed (workerId : Str) (expiresAt : Datetime) :
    Storable (.dict [(text "worker_id", .str workerId),
      (text "lease_expires_at", .str expiresAt.isoformat)]) := by
  refine .dict ([(str "worker_id", .str workerId),
    (str "lease_expires_at", .str expiresAt.isoformat)])
    (show [str "worker_id", str "lease_expires_at"].Nodup by decide) ?_
  simp only [List.forall_mem_cons, storable_str, true_and]
  exact List.forall_mem_nil _

theorem encodable_claimed {workerId : Str} (h : Python.Encodable workerId) (expiresAt : Datetime) :
    Python.Encodable (jsonOf (.dict [(text "worker_id", .str workerId),
      (text "lease_expires_at", .str expiresAt.isoformat)])) := by
  refine (encodable_json_dict ([(str "worker_id", .str workerId),
    (str "lease_expires_at", .str expiresAt.isoformat)]) ?_).mpr ?_
  · simp only [List.forall_mem_cons, storable_str, true_and]
    exact List.forall_mem_nil _
  · simp only [List.forall_mem_cons, encodable_str, encodable_json_str, h,
      expiresAt.encodable_isoformat, true_and]
    exact List.forall_mem_nil _

theorem storable_attempted (attemptId workerId : Str) (ordinal : Nat) :
    Storable (.dict [(text "attempt_id", .str attemptId), (text "ordinal", .int ordinal),
      (text "worker_id", .str workerId)]) := by
  refine .dict ([(str "attempt_id", .str attemptId), (str "ordinal", .int ordinal),
    (str "worker_id", .str workerId)])
    (show [str "attempt_id", str "ordinal", str "worker_id"].Nodup by decide) ?_
  simp only [List.forall_mem_cons, storable_str, storable_int, true_and]
  exact List.forall_mem_nil _

theorem encodable_attempted {attemptId workerId : Str} (hid : Python.Encodable attemptId)
    (h : Python.Encodable workerId) (ordinal : Nat) :
    Python.Encodable (jsonOf (.dict [(text "attempt_id", .str attemptId), (text "ordinal", .int ordinal),
      (text "worker_id", .str workerId)])) := by
  refine (encodable_json_dict ([(str "attempt_id", .str attemptId),
    (str "ordinal", .int ordinal), (str "worker_id", .str workerId)]) ?_).mpr ?_
  · simp only [List.forall_mem_cons, storable_str, storable_int, true_and]
    exact List.forall_mem_nil _
  · simp only [List.forall_mem_cons, encodable_str, encodable_json_str, encodable_json_int, hid, h,
      true_and]
    exact List.forall_mem_nil _

theorem storable_transition (source target : EffectStatus) {data : Items}
    (h : Storable (.dict data)) : Storable (.dict (InMemoryStore.transitionData source target data)) := by
  refine .dict ([(str "from", .str source.value), (str "to", .str target.value),
    (str "metadata", .dict data)]) (show [str "from", str "to", str "metadata"].Nodup by decide) ?_
  simp only [List.forall_mem_cons, storable_str, h, true_and]
  exact List.forall_mem_nil _

theorem transitionData_keys (source target : EffectStatus) (data : Items) :
    ((InMemoryStore.transitionData source target data).map Prod.fst).Nodup := by
  have hkeys : [str "from", str "to", str "metadata"].Nodup := by decide
  show ([str "from", str "to", str "metadata"].map Value.str).Nodup
  exact hkeys.map fun _ _ he => Value.str.inj he

theorem wellFormed_transition (source target : EffectStatus) {data : Items}
    (h : (Value.dict data).WellFormed) :
    (Value.dict (InMemoryStore.transitionData source target data)).WellFormed :=
  ⟨transitionData_keys source target data, trivial, trivial, h, trivial⟩

theorem encodable_transition (source target : EffectStatus) {data : Items}
    (h : Storable (.dict data)) :
    Python.Encodable (jsonOf (.dict (InMemoryStore.transitionData source target data))) ↔
      Python.Encodable (jsonOf (.dict data)) := by
  refine (encodable_json_dict ([(str "from", .str source.value),
    (str "to", .str target.value), (str "metadata", .dict data)]) ?_).trans ?_
  · simp only [List.forall_mem_cons, storable_str, h, true_and]
    exact List.forall_mem_nil _
  · simp only [List.forall_mem_cons, encodable_str, encodable_json_str, encodable_status, true_and]
    exact ⟨fun h => h.1, fun h => ⟨h, List.forall_mem_nil _⟩⟩

/-! ## What is read -/

/-- What a record is read as, if its durations can be read. -/
theorem sqliteRead_ok {record read : EffectRecord} (h : sqliteRead record = .ok read) :
    ∃ keyRetention settlementBound, read = { record with
      request := { record.request with arguments := normalize record.request.arguments }
      contract := { record.contract with keyRetention, settlementBound } } := by
  obtain ⟨keyRetention, -, h⟩ := bind_eq_ok.mp h
  obtain ⟨settlementBound, -, h⟩ := bind_eq_ok.mp h
  exact ⟨keyRetention, settlementBound, (Except.ok.inj h).symm⟩

/-- Whether a record can be read depends on its effect alone. -/
theorem sqliteRead_same {a b : EffectRecord} (h : SameEffect a b) :
    (∃ read, sqliteRead a = .ok read) → ∃ read, sqliteRead b = .ok read := by
  rintro ⟨read, hread⟩
  obtain ⟨keyRetention, hkey, hread⟩ := bind_eq_ok.mp hread
  obtain ⟨settlementBound, hbound, -⟩ := bind_eq_ok.mp hread
  rw [h]
  exact ⟨_, bind_eq_ok.mpr ⟨keyRetention, hkey, bind_eq_ok.mpr ⟨settlementBound, hbound, rfl⟩⟩⟩

/-- A record of the book, and what is read of it. -/
abbrev Reads (read record : EffectRecord) : Prop := sqliteRead record = .ok read

theorem agrees_read {fit : Prop} {α : Type} {R : EffectRecord → α → Prop} {record : EffectRecord}
    {a : α} (hfit : fit → ∃ read, sqliteRead record = .ok read)
    (h : ∀ read, Reads read record → R read a) : Agrees fit R (sqliteRead record) (.ok a) := by
  cases hread : sqliteRead record with
  | ok read => exact .ok (h read hread)
  | error exc =>
    refine .unfit fun hf => ?_
    obtain ⟨read, hok⟩ := hfit hf
    rw [hread] at hok
    cases hok

/-- The next row of a ledger fits the columns of the tables. -/
structure EffectLedger.Roomy (l : EffectLedger) : Prop where
  readable : ∃ read, sqliteRead l.record = .ok read
  named : Python.Encodable l.id
  events : l.events.length + 1 < 2 ^ 63
  attempts : l.attempts.length + 1 < 2 ^ 63

/-- The row of a ledger can be claimed for a worker. -/
structure EffectLedger.CanClaim (l : EffectLedger) (workerId : Str) : Prop where
  readable : ∃ read, sqliteRead l.record = .ok read
  named : Python.Encodable l.id
  events : l.events.length + 1 < 2 ^ 63
  worker : Python.Encodable workerId

/-! ## `claim_due` -/

section
variable {fit : Prop} {s : SqliteStore} {secrets : Secrets} {b : Book} {e : Str} {l : EffectLedger}

theorem arguments_modify (h : ∀ l ∈ b, Storable l.record.request.arguments)
    {f : EffectLedger → EffectLedger} (hf : ∀ l, SameEffect l.record (f l).record) :
    ∀ l ∈ b.modify e f, Storable l.record.request.arguments := by
  intro l' hl'
  obtain ⟨l, hl, rfl⟩ := List.mem_map.mp hl'
  by_cases he : l.id = e
  · rw [if_pos he, hf l]
    exact h l hl
  · rw [if_neg he]
    exact h l hl

theorem effects_modify {f : EffectLedger → EffectLedger} (hf : ∀ l, effectRow (f l) = effectRow l) :
    (b.modify e f).map effectRow = b.map effectRow := by
  rw [Book.modify, List.map_map]
  refine List.map_congr_left fun l _ => ?_
  show effectRow (if l.id = e then f l else l) = effectRow l
  split
  · exact hf l
  · rfl

theorem effects_updateEffect (h : s.effects = b.map effectRow) {f : EffectLedger → EffectLedger}
    {g : SqliteEffectRow → SqliteEffectRow} (hfg : ∀ l, effectRow (f l) = g (effectRow l)) :
    (s.updateEffect e g).effects = (b.modify e f).map effectRow := by
  show s.effects.map _ = _
  rw [h, Book.modify, List.map_map, List.map_map]
  refine List.map_congr_left fun l _ => ?_
  show (if l.id = e then g (effectRow l) else effectRow l) = effectRow (if l.id = e then f l else l)
  split
  · exact (hfg l).symm
  · rfl

/-- What is read of an effect that the book has. -/
theorem agrees_select {α β : Type} {R : α → β → Prop} {f : Option EffectRecord → Except Exc α}
    {y : Except Exc β} (heffects : s.effects = b.map effectRow)
    (hstored : ∀ l ∈ b, Storable l.record.request.arguments) (hl : b.ledger e = some l)
    (hfit : fit → Python.Encodable e ∧ ∃ read, sqliteRead l.record = .ok read)
    (h : ∀ read, sqliteRead l.record = .ok read → Agrees fit R (f (some read)) y) :
    Agrees fit R (s.selectByEffectId e >>= f) y := by
  rw [selectByEffectId_eq heffects hstored, bind_assoc]
  refine agrees_bindParams (fun hf => List.forall_mem_singleton.mpr (hfit hf).1) fun _ => ?_
  simp only [hl]
  cases hread : sqliteRead l.record with
  | error exc =>
    refine .unfit fun hf => ?_
    obtain ⟨-, read, hok⟩ := hfit hf
    rw [hread] at hok
    cases hok
  | ok read => exact h read hread

/-- Claim the row of an effect that is due. -/
theorem agrees_claimRow (h : s.Holds secrets b) (hl : b.ledger e = some l) {workerId : Str}
    {now : Datetime} (expiresAt : Datetime) (hdue : l.due now = true)
    (hfit : fit → l.CanClaim workerId) :
    Agrees fit (fun (p : EffectRecord × SqliteStore) (_ : Unit) =>
        sqliteRead (claimedRecord l.record now) = .ok p.1 ∧
          p.2.Holds secrets (b.modify e (·.claimed workerId now expiresAt)))
      (s.claimRow workerId now expiresAt e) (.ok ()) := by
  obtain ⟨hm, rfl⟩ := Book.mem_of_ledger hl
  unfold SqliteStore.claimRow
  refine agrees_bindParams (fun hf => ?_) fun _ => ?_
  · simp only [List.forall_mem_cons, SqliteParam.Fits, (hfit hf).worker,
      Datetime.encodable_isoformat, (hfit hf).named, true_and]
    exact List.forall_mem_nil _
  · have hlength : (s.events.filter (·.effectId = l.id)).length = l.events.length := by
      rw [h.events, List.length_map, Book.eventsOf, hl]
      rfl
    have hversion := (h.good.sound l hm).story.version_lt
    refine agrees_select (b := b.modify l.id (·.claimed workerId now expiresAt))
      (effects_updateEffect h.effects fun _ => rfl) (arguments_modify h.arguments fun _ => rfl)
      (Book.ledger_modify_self (fun _ => rfl) hl)
      (fun hf => ⟨(hfit hf).named, sqliteRead_same rfl (hfit hf).readable⟩)
      fun updated hupdated => ?_
    have hread := hupdated
    obtain ⟨keyRetention, settlementBound, rfl⟩ := sqliteRead_ok hupdated
    refine agrees_appendEvent (h.numbered l.id) (fun hf => ?_) fun _ => .ok ⟨hread, ?_⟩
    · have hroom := (hfit hf).events
      refine ⟨(hfit hf).named, ?_, ?_, _, (storable_claimed workerId expiresAt).dumps,
        encodable_claimed (hfit hf).worker expiresAt⟩
      · show (s.events.filter (·.effectId = l.id)).length + 1 < 2 ^ 63
        omega
      · show l.record.version + 1 < 2 ^ 63
        omega
    · refine h.modify [] (fun _ => rfl) hl (.claimed hdue) rfl
        (effects_updateEffect h.effects fun _ => rfl) (List.append_nil _).symm rfl
        (List.forall_mem_nil _) rfl (storable_claimed workerId expiresAt) (List.append_nil _).symm ?_
      show _ = l.events ++ [⟨l.id, (s.events.filter (·.effectId = l.id)).length + 1, .claimed,
        l.record.version + 1, now, _⟩]
      rw [hlength]
      rfl

theorem leaseActive_effectRow (l : EffectLedger) (now : Datetime) :
    SqliteStore.leaseActive (effectRow l) now =
      .ok (!l.lease.all fun lease => lease.expiresAt ≤ now) := by
  unfold SqliteStore.leaseActive
  cases hlease : l.lease with
  | none =>
    simp only [effectRow, sqliteColumns, hlease, Option.map_none]
    rfl
  | some lease =>
    simp only [effectRow, sqliteColumns, hlease, Option.map_some, parseTime_isoformat]
    show Except.ok (decide (now < lease.expiresAt)) = .ok (!decide (lease.expiresAt ≤ now))
    rw [← decide_not, decide_eq_decide.mpr not_le]

theorem claimAll_cons {id workerId : Str} {ids : List Str} {now expiresAt : Datetime}
    (h : id ∉ ids) : b.claimAll (id :: ids) workerId now expiresAt =
      (b.modify id (·.claimed workerId now expiresAt)).claimAll ids workerId now expiresAt := by
  unfold Book.claimAll Book.modify
  rw [List.map_map]
  refine List.map_congr_left fun l _ => ?_
  rw [Function.comp_apply]
  by_cases hid : l.id = id
  · have hclaimed : (l.claimed workerId now expiresAt).id ∉ ids := fun hm => h (hid ▸ hm)
    rw [if_pos (List.mem_cons.mpr (.inl hid)), if_pos hid, if_neg hclaimed]
  · rw [if_neg hid]
    simp only [List.mem_cons, hid, false_or]

theorem claimAll_nil (workerId : Str) (now expiresAt : Datetime) :
    b.claimAll [] workerId now expiresAt = b := by
  unfold Book.claimAll
  simp

/-- What the loop of `claim_due` collects and leaves. -/
structure Claimed (secrets : Secrets) (b queue : Book) (workerId : Str) (now expiresAt : Datetime) (limit : Int)
    (before : List EffectRecord) (p : List EffectRecord × SqliteStore) : Prop where
  records : ∃ reads, p.1 = before ++ reads ∧
    List.Forall₂ (fun l read => sqliteRead (claimedRecord l.record now) = .ok read)
      (Book.picks queue now (limit - before.length)) reads
  holds : p.2.Holds secrets (b.claimAll ((Book.picks queue now (limit - before.length)).map EffectLedger.id)
    workerId now expiresAt)

theorem Claimed.stop {queue : Book} {workerId : Str} {now expiresAt : Datetime} {limit : Int}
    {before : List EffectRecord} (h : s.Holds secrets b)
    (hpicks : Book.picks queue now (limit - before.length) = []) :
    Claimed secrets b queue workerId now expiresAt limit before (before, s) := by
  constructor
  · rw [hpicks]
    exact ⟨[], (List.append_nil _).symm, .nil⟩
  · rw [hpicks, List.map_nil, claimAll_nil]
    exact h

theorem agrees_claimLoop (workerId : Str) (now expiresAt : Datetime) (limit : Int) (queue : Book)
    (h : s.Holds secrets b) (before : List EffectRecord) (hids : (queue.map EffectLedger.id).Nodup)
    (hqueue : ∀ l ∈ queue, b.ledger l.id = some l ∧ l.record.status.isClaimable)
    (hfit : fit → ∀ l ∈ Book.picks queue now (limit - before.length), l.CanClaim workerId) :
    Agrees fit (fun p (_ : Unit) => Claimed secrets b queue workerId now expiresAt limit before p)
      (SqliteStore.claimLoop workerId now expiresAt limit (queue.map effectRow) s before)
      (.ok ()) := by
  induction queue generalizing s b before with
  | nil => exact .ok (.stop h List.take_nil)
  | cons l queue ih =>
    obtain ⟨hnot, hrest⟩ := List.nodup_cons.mp hids
    obtain ⟨⟨hl, hclaimable⟩, hothers⟩ := List.forall_mem_cons.mp hqueue
    rw [List.map_cons, SqliteStore.claimLoop]
    by_cases hlimit : (before.length : Int) ≥ limit
    · rw [if_pos hlimit]
      exact .ok (.stop h (Book.picks_of_nonpos (by omega)))
    · rw [if_neg hlimit, leaseActive_effectRow, ok_bind]
      by_cases hlease : (l.lease.all fun lease => lease.expiresAt ≤ now) = true
      · have hdue : l.due now = true := Bool.and_eq_true_iff.mpr ⟨hclaimable, hlease⟩
        have hpicks := Book.picks_cons_due queue hdue
          (show 0 < limit - (before.length : Int) by omega)
        rw [hlease]
        simp only [Bool.not_true, Bool.false_eq_true, if_false]
        refine (agrees_claimRow h hl expiresAt hdue fun hf => ?_).bind
          (g := fun _ => .ok ()) fun p _ hp => ?_
        · refine hfit hf l ?_
          rw [hpicks]
          exact List.mem_cons_self ..
        obtain ⟨read, after⟩ := p
        obtain ⟨hread, hafter⟩ := hp
        have hnext : limit - (before.length : Int) - 1 = limit - (before ++ [read]).length := by
          rw [List.length_append, List.length_singleton]
          omega
        rw [hnext] at hpicks
        refine (ih hafter (before ++ [read]) hrest (fun l' hl' => ?_) fun hf => ?_).mono
          fun p _ hp => ⟨?_, ?_⟩
        · have hne : l'.id ≠ l.id := fun he => hnot (he ▸ List.mem_map_of_mem hl')
          have hother : (b.modify l.id (·.claimed workerId now expiresAt)).ledger l'.id =
              b.ledger l'.id :=
            Book.ledger_modify_ne (f := (·.claimed workerId now expiresAt)) (fun _ => rfl) hne
          exact ⟨hother.trans (hothers l' hl').1, (hothers l' hl').2⟩
        · intro l' hl'
          refine hfit hf l' ?_
          rw [hpicks]
          exact List.mem_cons_of_mem _ hl'
        · obtain ⟨reads, hp, hreads⟩ := hp.records
          rw [hpicks]
          exact ⟨read :: reads, by rw [hp, List.append_assoc]; rfl, .cons hread hreads⟩
        · have hfresh : l.id ∉ (Book.picks queue now (limit - (before ++ [read]).length)).map
              EffectLedger.id := fun hm => by
            obtain ⟨l', hl', he⟩ := List.mem_map.mp hm
            exact hnot (he ▸ List.mem_map_of_mem (Book.mem_picks hl').1)
          rw [hpicks, List.map_cons, claimAll_cons hfresh]
          exact hp.holds
      · have hlease : (l.lease.all fun lease => lease.expiresAt ≤ now) = false := by
          simpa using hlease
        have hpicks := Book.picks_cons_not_due queue
          (Bool.and_eq_false_iff.mpr (.inr hlease) : l.due now = false) (limit - before.length)
        rw [hlease]
        simp only [Bool.not_false, if_true]
        refine (ih h before hrest hothers fun hf => ?_).mono fun p _ hp => ?_
        · rw [← hpicks]
          exact hfit hf
        · exact ⟨hpicks ▸ hp.records, hpicks ▸ hp.holds⟩

theorem sqliteBefore_effectRow (l l' : EffectLedger) :
    Book.before l l' ↔ sqliteBefore (effectRow l) (effectRow l') :=
  or_congr Datetime.isoformat_lt_iff.symm (and_congr_left' Datetime.isoformat_injective.eq_iff.symm)

/-- The rows of some ledgers, in order. -/
theorem sort_effectRow (ledgers : Book) :
    (ledgers.map effectRow).insertionSort sqliteBefore = ledgers.queue.map effectRow :=
  (List.map_insertionSort _ _ effectRow ledgers fun l _ l' _ => sqliteBefore_effectRow l l').symm

theorem agrees_claimDue (h : s.Holds secrets b) (workerId : Str) (now : Datetime) (leaseFor : Timedelta)
    (limit : Int) (hfit : fit → ∀ l ∈ Book.picks b.queue now limit, l.CanClaim workerId) :
    Agrees fit (fun (p : List EffectRecord × SqliteStore) (q : List EffectRecord × Book) =>
        List.Forall₂ Reads p.1 q.1 ∧ p.2.Holds secrets q.2)
      (s.claimDue workerId now leaseFor limit) (b.claimDue b.queue workerId now leaseFor limit) := by
  unfold SqliteStore.claimDue Book.claimDue
  by_cases hlimit : limit ≤ 0
  · rw [if_pos hlimit, if_pos hlimit]
    exact .ok ⟨.nil, h⟩
  · rw [if_neg hlimit, if_neg hlimit]
    cases hadd : now.add leaseFor with
    | none => exact .error
    | some expiresAt =>
      have hrows : (s.effects.filter fun row => decide (row.status = EffectStatus.prepared.value ∨
          row.status = EffectStatus.retryable.value)) =
          (b.filter (·.record.status.isClaimable)).map effectRow := by
        rw [h.effects, List.filter_map]
        refine congrArg (List.map effectRow) (List.filter_congr fun l _ => ?_)
        rw [Function.comp_apply, Bool.eq_iff_iff, decide_eq_true_iff, EffectStatus.isClaimable_iff]
        exact or_congr EffectStatus.value_injective.eq_iff EffectStatus.value_injective.eq_iff
      have hpicks (n : Int) : Book.picks (Book.queue (b.filter (·.record.status.isClaimable))) now n =
          Book.picks b.queue now n := by
        unfold Book.picks
        rw [← Book.filter_queue h.good.toUnique, List.filter_filter]
        refine congrArg (List.take n.toNat) (List.filter_congr fun l _ => ?_)
        show (l.due now && l.record.status.isClaimable) = l.due now
        rw [Bool.and_eq_left_iff_imp]
        exact fun hdue => (Bool.and_eq_true_iff.mp hdue).1
      simp only [hrows, sort_effectRow]
      refine (agrees_claimLoop workerId now expiresAt limit _ h [] ?_ (fun l hl => ?_)
        fun hf => ?_).change fun p hp => ?_
      · exact ((List.perm_insertionSort _ _).map _).nodup_iff.mpr
          ((List.filter_sublist.map _).nodup h.good.ids)
      · obtain ⟨hm, hclaimable⟩ := List.mem_filter.mp (Book.mem_queue.mp hl)
        exact ⟨h.good.ledger_of_mem hm, hclaimable⟩
      · rw [List.length_nil, hpicks, Int.natCast_zero, Int.sub_zero]
        exact hfit hf
      · obtain ⟨⟨reads, hp, hreads⟩, hholds⟩ := hp
        rw [List.length_nil, hpicks, Int.natCast_zero, Int.sub_zero] at hreads hholds
        rw [List.nil_append] at hp
        rw [hp]
        exact ⟨List.forall₂_map_right_iff.mpr hreads.flip, hholds⟩

/-! ## `start_attempt` and `transition` -/

theorem agrees_current (h : s.Holds secrets b) (e : Str) (expectedVersion : Int)
    (hfit : fit → Python.Encodable e ∧ ∀ l ∈ b, l.Roomy) :
    Agrees fit (fun record l => b.ledger e = some l ∧ (l.record.version : Int) = expectedVersion ∧
        Reads record l.record)
      (s.recordForExpectedVersion e expectedVersion) (b.current e expectedVersion) := by
  unfold SqliteStore.recordForExpectedVersion Book.current
  rw [selectByEffectId_eq h.effects h.arguments, bind_assoc]
  refine agrees_bindParams (fun hf => List.forall_mem_singleton.mpr (hfit hf).1) fun _ => ?_
  cases hl : b.ledger e with
  | none => exact .error
  | some l =>
    simp only
    cases hread : sqliteRead l.record with
    | error exc =>
      refine .unfit fun hf => ?_
      obtain ⟨read, hok⟩ := ((hfit hf).2 l (Book.mem_of_ledger hl).1).readable
      rw [hread] at hok
      cases hok
    | ok record =>
      obtain ⟨keyRetention, settlementBound, hrecord⟩ := sqliteRead_ok hread
      have hversion : record.version = l.record.version := by rw [hrecord]
      show Agrees fit _ (if (record.version : Int) ≠ expectedVersion then _ else _) _
      rw [hversion]
      by_cases hv : (l.record.version : Int) = expectedVersion
      · rw [if_neg (not_not.mpr hv), if_neg (not_not.mpr hv)]
        exact .ok ⟨rfl, hv, hread⟩
      · rw [if_pos hv, if_pos hv]
        exact .error

/-- The next attempt id is new. -/
theorem SqliteStore.Holds.fresh_attempt (h : s.Holds secrets b) (hl : b.ledger e = some l) :
    ¬(s.attempts.any fun row => decide (row.attemptId = attemptIdOf e (l.attempts.length + 1) ∨
      (row.effectId = e ∧ row.ordinal = l.attempts.length + 1))) = true := by
  intro hany
  obtain ⟨row, hrow, heq⟩ := List.any_eq_true.mp hany
  have heq := of_decide_eq_true heq
  have hm : row ∈ s.attempts.filter (·.effectId = row.effectId) :=
    List.mem_filter.mpr ⟨hrow, decide_eq_true rfl⟩
  rw [h.attempts] at hm
  obtain ⟨attempt, hattempt, hrow⟩ := List.mem_map.mp hm
  cases hl' : b.ledger row.effectId with
  | none =>
    rw [Book.attemptsOf, hl'] at hattempt
    cases hattempt
  | some l' =>
    rw [Book.attemptsOf, hl'] at hattempt
    obtain ⟨hm', hid'⟩ := Book.mem_of_ledger hl'
    have hpair : (attempt.ordinal, attempt.attemptId) ∈
        l'.attempts.map fun row => (row.ordinal, row.attemptId) := List.mem_map_of_mem hattempt
    rw [(h.good.sound l' hm').attempts] at hpair
    obtain ⟨n, hn, hpair⟩ := List.mem_map.mp hpair
    obtain ⟨hordinal, hattemptId⟩ := Prod.mk.inj hpair
    have hn := List.mem_range'_1.mp hn
    have same : row.effectId = e → n = l.attempts.length + 1 → False := by
      intro he hlast
      rw [he, hl] at hl'
      cases hl'
      omega
    rcases heq with heq | ⟨he, heq⟩
    · have hids : attemptIdOf l'.record.effectId n = attemptIdOf e (l.attempts.length + 1) := by
        rw [hattemptId, ← heq, ← hrow]
        rfl
      obtain ⟨he, hlast⟩ := attemptIdOf_inj hids
      exact same (hid'.symm.trans he) hlast
    · refine same he ?_
      rw [hordinal, ← heq, ← hrow]
      rfl

theorem agrees_startAttempt (h : s.Holds secrets b) (now : Datetime) (e : Str) (expectedVersion : Int)
    (workerId : Str) (hfit : fit → Python.Encodable e ∧ (∀ l ∈ b, l.Roomy) ∧
      ((∃ l, b.current e expectedVersion = .ok l) → Python.Encodable workerId)) :
    Agrees fit (fun (p : Str × SqliteStore) (q : Str × Book) => p.1 = q.1 ∧ p.2.Holds secrets q.2)
      (s.startAttempt now e expectedVersion workerId)
      (b.startAttempt now e expectedVersion workerId) := by
  refine (agrees_current h e expectedVersion fun hf => ⟨(hfit hf).1, (hfit hf).2.1⟩).bind
    fun record l hrecord => ?_
  obtain ⟨hl, hversion, hread⟩ := hrecord
  obtain ⟨hm, rfl⟩ := Book.mem_of_ledger hl
  obtain ⟨keyRetention, settlementBound, rfl⟩ := sqliteRead_ok hread
  have hattempts : (s.attempts.filter (·.effectId = l.id)).length = l.attempts.length := by
    rw [h.attempts, List.length_map, Book.attemptsOf, hl]
    rfl
  have hevents : (s.events.filter (·.effectId = l.id)).length = l.events.length := by
    rw [h.events, List.length_map, Book.eventsOf, hl]
    rfl
  have hlt := (h.good.sound l hm).story.version_lt
  have hworker : fit → l.Roomy ∧ Python.Encodable workerId := fun hf =>
    ⟨(hfit hf).2.1 l hm, (hfit hf).2.2 ⟨l, Book.current_ok.mpr ⟨hl, hversion⟩⟩⟩
  have hattemptId : fit → Python.Encodable (attemptIdOf l.id (l.attempts.length + 1)) := fun hf =>
    encodable_append.mpr ⟨encodable_append.mpr ⟨(hworker hf).1.named, encodable_str _⟩,
      encodable_decimal _⟩
  simp only [hattempts]
  refine agrees_bindParams (fun hf => ?_) fun _ => ?_
  · obtain ⟨hroomy, hworker⟩ := hworker hf
    have hroom := hroomy.attempts
    have hroom' := hroomy.events
    simp only [List.forall_mem_cons, SqliteParam.Fits, hattemptId hf, hroomy.named, hworker,
      Datetime.encodable_isoformat, true_and]
    exact ⟨by omega, by omega, List.forall_mem_nil _⟩
  rw [if_neg (h.fresh_attempt hl)]
  refine agrees_appendEvent (h.numbered l.id) (fun hf => ?_) fun _ => .ok ⟨rfl, ?_⟩
  · obtain ⟨hroomy, hworker⟩ := hworker hf
    have hroom := hroomy.events
    refine ⟨hroomy.named, ?_, ?_, _, (storable_attempted _ workerId _).dumps,
      encodable_attempted (hattemptId hf) hworker _⟩
    · show (s.events.filter (·.effectId = l.id)).length + 1 < 2 ^ 63
      omega
    · show l.record.version < 2 ^ 63
      omega
  · refine h.modify [⟨attemptIdOf l.id (l.attempts.length + 1), l.id, l.attempts.length + 1, workerId,
      l.record.version, now⟩] (fun _ => rfl) hl .attempted rfl ?_ ?_ rfl
      (List.forall_mem_singleton.mpr rfl) rfl (storable_attempted _ workerId _) rfl ?_
    · have heffects := effects_modify (b := b) (e := l.id) (f := (·.attempted workerId now))
        fun _ => rfl
      exact h.effects.trans heffects.symm
    · show s.attempts ++ [_] = s.attempts ++ [_]
      rw [← hversion, Int.toNat_natCast]
      rfl
    · show _ = l.events ++ [⟨l.id, (s.events.filter (·.effectId = l.id)).length + 1, .attemptStarted,
        l.record.version, now, _⟩]
      rw [hevents]
      rfl

theorem agrees_transition (h : s.Holds secrets b) (now : Datetime) (e : Str) (expectedVersion : Int)
    (target : EffectStatus) (data : Items) (hwf : (Value.dict data).WellFormed)
    (hfit : fit → Python.Encodable e ∧ (∀ l ∈ b, l.Roomy) ∧
      ((∃ result, b.transition now e expectedVersion target data = .ok result) →
        Storable (.dict data) ∧ Python.Encodable (jsonOf (.dict data)))) :
    Agrees fit (fun (p : EffectRecord × SqliteStore) (q : EffectRecord × Book) =>
        Reads p.1 q.1 ∧ p.2.Holds secrets q.2)
      (s.transition now e expectedVersion target data)
      (b.transition now e expectedVersion target data) := by
  refine (agrees_current h e expectedVersion fun hf => ⟨(hfit hf).1, (hfit hf).2.1⟩).bind
    fun record l hrecord => ?_
  obtain ⟨hl, hversion, hread⟩ := hrecord
  obtain ⟨hm, rfl⟩ := Book.mem_of_ledger hl
  obtain ⟨keyRetention, settlementBound, rfl⟩ := sqliteRead_ok hread
  have hevents : (s.events.filter (·.effectId = l.id)).length = l.events.length := by
    rw [h.events, List.length_map, Book.eventsOf, hl]
    rfl
  have hlt := (h.good.sound l hm).story.version_lt
  by_cases hallowed : isAllowed l.record.status target = true
  swap
  · have hraise : assertTransition l.record.status target =
        .error (.invalidTransition l.record.status target) := by
      rw [assertTransition, if_neg hallowed]
    simp only [hraise]
    exact .error
  simp only [assertTransition_ok.mpr hallowed]
  have hdata : fit → l.Roomy ∧ Storable (.dict data) ∧ Python.Encodable (jsonOf (.dict data)) := fun hf => by
    refine ⟨(hfit hf).2.1 l hm, (hfit hf).2.2
      ⟨(movedRecord l.record target now, b.modify l.id (·.moved target now data)), ?_⟩⟩
    unfold Book.transition
    rw [Book.current_ok.mpr ⟨hl, hversion⟩, ok_bind, assertTransition_ok.mpr hallowed]
    rfl
  refine agrees_bindParams (fun hf => ?_) fun _ => ?_
  · have hroom := (hdata hf).1.events
    simp only [List.forall_mem_cons, SqliteParam.Fits, encodable_status, (hdata hf).1.named,
      Datetime.encodable_isoformat, true_and]
    exact ⟨by omega, List.forall_mem_nil _⟩
  -- the row that was read has the expected version
  have hany : (s.effects.any fun row => decide (row.effectId = l.id ∧
      (row.version : Int) = expectedVersion)) = true := by
    rw [h.effects, List.any_map]
    exact List.any_eq_true.mpr ⟨l, hm, decide_eq_true ⟨rfl, hversion⟩⟩
  rw [if_pos hany]
  refine agrees_select (b := b.modify l.id (·.moved target now data))
    (effects_updateEffect h.effects fun _ => rfl) (arguments_modify h.arguments fun _ => rfl)
    (Book.ledger_modify_self (fun _ => rfl) hl)
    (fun hf => ⟨(hdata hf).1.named, sqliteRead_same rfl (hdata hf).1.readable⟩)
    fun updated hupdated => ?_
  have hread' := hupdated
  obtain ⟨keyRetention', settlementBound', rfl⟩ := sqliteRead_ok hupdated
  refine agrees_appendEvent (h.numbered l.id) (fun hf => ?_) fun hwritten => .ok ⟨hread', ?_⟩
  · obtain ⟨hroomy, hstorable, hencodable⟩ := hdata hf
    have hroom := hroomy.events
    refine ⟨hroomy.named, ?_, ?_, _, (storable_transition _ _ hstorable).dumps,
      (encodable_transition _ _ hstorable).mpr hencodable⟩
    · show (s.events.filter (·.effectId = l.id)).length + 1 < 2 ^ 63
      omega
    · show l.record.version + 1 < 2 ^ 63
      omega
  · refine h.modify [] (fun _ => rfl) hl (.moved hallowed) rfl
      (effects_updateEffect h.effects fun _ => rfl) (List.append_nil _).symm rfl
      (List.forall_mem_nil _) rfl ⟨wellFormed_transition _ _ hwf, hwritten⟩ (List.append_nil _).symm ?_
    show _ = l.events ++ [⟨l.id, (s.events.filter (·.effectId = l.id)).length + 1, .transition,
      l.record.version + 1, now, _⟩]
    rw [hevents]
    rfl

/-! ## `reserve` -/

/-- The reply to a reservation: a new effect is returned as it is, an old one as it is
read. -/
def ReadsReservation (p q : Reservation) : Prop :=
  p.created = q.created ∧ p.replayed = q.replayed ∧
    if q.created then p.effect = q.effect else Reads p.effect q.effect

theorem conflicts_sqliteColumns (record : EffectRecord) (argumentsJson : Str) (l : EffectLedger) :
    (sqliteColumns record argumentsJson none).conflicts (effectRow l) = true ↔
      l.id = record.effectId ∨ l.identity = (record.tenantId, record.request.operationKey) := by
  refine decide_eq_true_iff.trans (or_congr eq_comm ?_)
  exact (and_congr eq_comm eq_comm).trans Prod.mk_inj.symm

theorem agrees_reserve (h : s.Holds secrets b) (now : Datetime) (uuid tenantId : Str)
    (request : EffectRequest) (contract : EffectContract) (hwf : request.arguments.WellFormed)
    (hfit : fit → (∀ l ∈ b, l.Roomy) ∧ ∀ record,
      newRecord s.hashes s.tenantKeyProvider now uuid tenantId request contract = .ok record →
        ∀ param ∈ (effectRow (.reserved record)).params, param.Fits) :
    Agrees fit (fun (p : Reservation × SqliteStore) (q : Reservation × Book) =>
        ReadsReservation p.1 q.1 ∧ p.2.Holds secrets q.2)
      (s.reserve now uuid tenantId request contract)
      (b.reserve s.hashes s.tenantKeyProvider now uuid tenantId request contract) := by
  unfold SqliteStore.reserve Book.reserve
  cases hnew : newRecord s.hashes s.tenantKeyProvider now uuid tenantId request contract with
  | error exc => exact .error
  | ok record =>
    obtain ⟨digest, tenantKey, key, hdigest, -, -, hrecord⟩ := newRecord_ok hnew
    obtain ⟨json, hjson⟩ := dumps_of_requestHash hdigest
    have hstatus : record.status = .prepared := by rw [hrecord]
    have hversion : record.version = 0 := by rw [hrecord]
    have hcreated : record.createdAt = now := by rw [hrecord]
    obtain rfl : record.tenantId = tenantId := by rw [hrecord]
    obtain rfl : record.request = request := by rw [hrecord]
    clear hrecord
    have harguments : Storable record.request.arguments := ⟨hwf, json, hjson⟩
    have hstored : json = jsonOf record.request.arguments := by
      rw [jsonOf, hjson]
      rfl
    have hrow : sqliteColumns record json none = effectRow (.reserved record) := by
      rw [hstored]
      rfl
    rw [ok_bind, ok_bind, recordParams, canonicalJson_eq_ok.mpr hjson, ok_bind, hrow]
    refine agrees_bindParams (fun hf => (hfit hf).2 _ hnew) fun hfits => ?_
    have hconflict : (s.effects.any (effectRow (.reserved record)).conflicts) = true ↔
        ∃ l ∈ b, l.id = record.effectId ∨
          l.identity = (record.tenantId, record.request.operationKey) := by
      rw [h.effects, List.any_map, List.any_eq_true]
      exact exists_congr fun l => and_congr_right' (conflicts_sqliteColumns _ _ l)
    have htexts : ∀ param ∈ [SqliteParam.text record.tenantId, .text record.request.operationKey],
        param.Fits := List.forall_mem_cons.mpr ⟨hfits _ (.tail _ (.head _)),
      List.forall_mem_singleton.mpr (hfits _ (.tail _ (.tail _ (.head _))))⟩
    cases hfound : b.reserved record.tenantId record.request.operationKey with
    | some l =>
      obtain ⟨hm, hidentity⟩ := Book.mem_of_reserved hfound
      rw [if_pos (hconflict.mpr ⟨l, hm, .inr hidentity⟩), SqliteStore.reserveExisting,
        selectByIdentity_eq h.effects h.arguments, bindParams_eq_ok.mpr htexts, ok_bind]
      simp only [hfound]
      cases hread : sqliteRead l.record with
      | error exc =>
        refine .unfit fun hf => ?_
        obtain ⟨read, hok⟩ := ((hfit hf).1 l hm).readable
        rw [hread] at hok
        cases hok
      | ok read =>
        obtain ⟨keyRetention, settlementBound, rfl⟩ := sqliteRead_ok hread
        show Agrees fit _ (if l.record.requestHash ≠ record.requestHash then _ else _)
          (if l.record.requestHash ≠ record.requestHash then _ else _)
        by_cases hhash : l.record.requestHash = record.requestHash
        · rw [if_neg (not_not.mpr hhash), if_neg (not_not.mpr hhash)]
          exact .ok ⟨⟨rfl, rfl, hread⟩, h⟩
        · rw [if_pos hhash, if_pos hhash]
          exact .error
    | none =>
      cases hledger : b.ledger record.effectId with
      | some l =>
        obtain ⟨hm, hid⟩ := Book.mem_of_ledger hledger
        rw [if_pos (hconflict.mpr ⟨l, hm, .inl hid⟩), SqliteStore.reserveExisting,
          selectByIdentity_eq h.effects h.arguments, bindParams_eq_ok.mpr htexts, ok_bind]
        simp only [hfound]
        exact .error
      | none =>
        have hfree : ¬(s.effects.any (effectRow (.reserved record)).conflicts) = true := by
          intro hany
          obtain ⟨l, hm, hid | hidentity⟩ := hconflict.mp hany
          · exact Book.ledger_eq_none.mp hledger l hm hid
          · exact Book.reserved_eq_none.mp hfound l hm hidentity
        have hnoEvents : s.events.filter (·.effectId = record.effectId) = [] := by
          rw [h.events, Book.eventsOf, hledger]
          rfl
        rw [if_neg hfree]
        refine agrees_appendEvent ?_ (fun hf => ?_) fun _ => .ok ⟨⟨rfl, rfl, rfl⟩, ?_⟩
        · exact h.numbered record.effectId
        · refine ⟨hfits _ (.head _), ?_, by omega, _, (storable_reserved record).dumps,
            encodable_reserved record⟩
          show (s.events.filter (·.effectId = record.effectId)).length + 1 < 2 ^ 63
          rw [hnoEvents]
          decide
        · refine h.append hledger hfound hstatus hversion harguments rfl ?_ rfl ?_
            (List.forall_mem_singleton.mpr (storable_reserved record))
          · show s.effects ++ [effectRow (.reserved record)] = _
            rw [h.effects, List.map_append]
            rfl
          · show s.events ++ [eventRow ⟨record.effectId,
              (s.events.filter (·.effectId = record.effectId)).length + 1, _, _, _, _⟩] = _
            rw [hnoEvents, ← hcreated]
            rfl

end
end EffectBroker
