import EffectBroker.SqliteSystem

/-!
# What a durable store promises

A durable store persists the status and the version of each effect.  A move that returns
has written its data and the new status; one that raises has written nothing.  Which data
it can write is a matter of the store: the SQLite store writes what has a canonical JSON
that UTF-8 encodes.
-/
namespace EffectBroker
open Python Concurrency

/-- The class of the exception has a name that UTF-8 encodes, as `type` demands. -/
def Named {α : Type} (x : Except Exc α) : Prop :=
  ∀ exc, x = .error exc → Python.Encodable exc.className

/-- A durable store, by what it persists of an effect and by the data it can write. -/
structure DurableStore {Store : Type} (store : EffectStore Store) where
  /-- The persisted status and version of an effect. -/
  state : Store → Str → Option (EffectStatus × Nat)
  /-- The ledger can canonicalise these data. -/
  Valid : Items → Prop
  valid_texts : ∀ fields : List (Str × Str),
    (∀ field ∈ fields, Python.Encodable field.1 ∧ Python.Encodable field.2) →
    Valid (fields.map fun field => (.str field.1, .str field.2))
  encodable_worker : ∀ {workerId}, Valid [(text "worker_id", .str workerId)] →
    Python.Encodable workerId
  transition_ok : ∀ {s now e version target data after s'},
    store.transition s now e version target data = (.ok after, s') →
    Valid data ∧ after.effectId = e ∧
      state s' = Function.update (state s) e (some (target, after.version))
  transition_error : ∀ {s now e version target data exc s'},
    store.transition s now e version target data = (.error exc, s') →
    state s' = state s ∧ Python.Encodable exc.className
  startAttempt_state : ∀ {s now e version workerId},
    state (store.startAttempt s now e version workerId).2 = state s
  startAttempt_ok : ∀ {s now e version workerId attemptId s'},
    store.startAttempt s now e version workerId = (.ok attemptId, s') →
    Python.Encodable attemptId

/-- The store performs every write about the effect whose data is valid. -/
def DurableStore.Performs {Store : Type} {store : EffectStore Store} (D : DurableStore store)
    (s : Store) (e : Str) : Prop :=
  ∀ now status version, D.state s e = some (status, version) →
    (∀ target data, isAllowed status target = true → D.Valid data →
      ∃ after s', store.transition s now e version target data = (.ok after, s')) ∧
    ∀ workerId, Python.Encodable workerId →
      ∃ attemptId s', store.startAttempt s now e version workerId = (.ok attemptId, s')

/-! ## Data that SQLite writes -/

/-- The data have a canonical JSON that UTF-8 encodes. -/
def Writable (data : Items) : Prop :=
  ∃ json, canonicalJson (.dict data) = .ok json ∧ Python.Encodable json

theorem writable_texts (fields : List (Str × Str))
    (h : ∀ field ∈ fields, Python.Encodable field.1 ∧ Python.Encodable field.2) :
    Writable (fields.map fun field => (.str field.1, .str field.2)) := by
  have hparts : dumpsItems (fields.map fun field => (.str field.1, .str field.2)) =
      some (fields.map fun field => (field.1, quote field.2)) := by
    clear h
    induction fields with
    | nil => rfl
    | cons field fields ih =>
      rw [List.map_cons, List.map_cons, dumpsItems, ih]
      rfl
  have hdumps : ∃ json, dumps (.dict (fields.map fun field => (.str field.1, .str field.2))) =
      some json := by
    rw [dumps, hparts]
    exact ⟨_, rfl⟩
  obtain ⟨json, hjson⟩ := hdumps
  refine ⟨json, canonicalJson_eq_ok.mpr hjson, (encodable_dumps_dict hparts hjson).mpr ?_⟩
  refine List.forall_mem_map.mpr fun field hm => ?_
  exact ⟨(h field hm).1, encodable_quote.mpr (h field hm).2⟩

/-- A dictionary can be written if its parts can, and only then. -/
theorem writable_iff {data : Items} {parts : List (Str × Str)} (hparts : dumpsItems data = some parts) :
    Writable data ↔ ∀ part ∈ parts, Python.Encodable part.1 ∧ Python.Encodable part.2 := by
  have hdumps : ∃ json, dumps (.dict data) = some json := by
    rw [dumps, hparts]
    exact ⟨_, rfl⟩
  obtain ⟨json, hjson⟩ := hdumps
  rw [← encodable_dumps_dict hparts hjson]
  constructor
  · rintro ⟨json', hjson', hencodable⟩
    rw [canonicalJson_eq_ok, hjson] at hjson'
    cases hjson'
    exact hencodable
  · intro hencodable
    exact ⟨json, canonicalJson_eq_ok.mpr hjson, hencodable⟩

theorem dumpsItems_transition (source target : EffectStatus) (data : Items) :
    dumpsItems (InMemoryStore.transitionData source target data) =
      (dumps (.dict data)).map fun json => [(str "from", quote source.value),
        (str "to", quote target.value), (str "metadata", json)] := by
  have hstr : ∀ s, dumps (.str s) = some (quote s) := fun _ => by rw [dumps]
  simp only [InMemoryStore.transitionData, text, dumpsItems, hstr]
  cases dumps (.dict data) with
  | none => rfl
  | some json => rfl

/-- A transition can be written if its metadata can, and only then. -/
theorem writable_transition {source target : EffectStatus} {data : Items} :
    Writable (InMemoryStore.transitionData source target data) ↔ Writable data := by
  have hparts := dumpsItems_transition source target data
  cases hdumps : dumps (.dict data) with
  | none =>
    rw [hdumps, Option.map_none] at hparts
    constructor
    · rintro ⟨json, hjson, -⟩
      rw [canonicalJson_eq_ok, dumps, hparts] at hjson
      cases hjson
    · rintro ⟨json, hjson, -⟩
      rw [canonicalJson_eq_ok, hdumps] at hjson
      cases hjson
  | some json =>
    rw [hdumps, Option.map_some] at hparts
    rw [writable_iff hparts]
    simp only [List.forall_mem_cons, encodable_str, encodable_quote, encodable_status, true_and]
    constructor
    · intro h
      exact ⟨json, canonicalJson_eq_ok.mpr hdumps, h.1⟩
    · rintro ⟨json', hjson', hencodable⟩
      rw [canonicalJson_eq_ok, hdumps] at hjson'
      cases hjson'
      exact ⟨hencodable, List.forall_mem_nil _⟩

/-- A worker whose name can be written. -/
theorem encodable_of_writable {key worker : Str} (h : Writable [(.str key, .str worker)]) :
    Python.Encodable worker := by
  have hparts : dumpsItems [(.str key, .str worker)] = some [(key, quote worker)] := by
    simp only [dumpsItems, dumps]
  have hworker := (writable_iff hparts).mp h _ (List.mem_singleton_self _)
  exact encodable_quote.mp hworker.2

/-! ## The SQLite store -/

namespace SqliteStore

/-- The status and the version in the row of an effect. -/
def stateOf (s : SqliteStore) (e : Str) : Option (EffectStatus × Nat) :=
  (s.effects.find? (·.effectId = e)).bind fun row =>
    (statusOfText row.status).toOption.map fun status => (status, row.version)

section
variable {s s' : SqliteStore} {e : Str}

theorem stateOf_congr (h : s'.effects = s.effects) : s'.stateOf = s.stateOf := by
  unfold stateOf
  rw [h]

/-- An update of one row updates the state of its effect. -/
theorem stateOf_updateEffect {f : SqliteEffectRow → SqliteEffectRow} {row : SqliteEffectRow}
    {status : EffectStatus} (hid : ∀ row, (f row).effectId = row.effectId)
    (hfind : s.effects.find? (·.effectId = e) = some row)
    (hstatus : (f row).status = status.value) :
    (s.updateEffect e f).stateOf =
      Function.update s.stateOf e (some (status, (f row).version)) := by
  funext e'
  by_cases he : e' = e
  · subst he
    rw [Function.update_self, stateOf, find?_updateEffect hid, hfind, Option.map_some,
      Option.bind_some, hstatus, statusOfText_value]
    rfl
  · rw [Function.update_of_ne he, stateOf, stateOf, find?_updateEffect_of_ne hid he]

theorem transition_state {now : Datetime} {expectedVersion : Int} {target : EffectStatus}
    {data : Items} {record : EffectRecord}
    (h : s.transition now e expectedVersion target data = .ok (record, s')) :
    Writable data ∧ record.effectId = e ∧
      s'.stateOf = Function.update s.stateOf e (some (target, record.version)) := by
  obtain ⟨before, -, h⟩ := bind_eq_ok.mp h
  obtain ⟨-, -, h⟩ := bind_eq_ok.mp h
  obtain ⟨-, -, h⟩ := bind_eq_ok.mp h
  split at h
  · obtain ⟨found, hfound, h⟩ := bind_eq_ok.mp h
    cases found with
    | none => cases h
    | some updated =>
      obtain ⟨after, hafter, h⟩ := bind_eq_ok.mp h
      cases h
      generalize hf : (fun row : SqliteEffectRow => { row with
        status := target.value
        version := row.version + 1
        updatedAt := now.isoformat
        workerId := none
        leaseWorkerId := none
        leaseUntil := none }) = f at hfound hafter
      have hid : ∀ row, (f row).effectId = row.effectId := fun row => by rw [← hf]
      have hstatus : ∀ row, (f row).status = target.value := fun row => by rw [← hf]
      obtain ⟨row, hrow, hread⟩ := selectByEffectId_some hfound
      rw [find?_updateEffect hid] at hrow
      obtain ⟨old, hold, rfl⟩ := Option.map_eq_some_iff.mp hrow
      obtain ⟨json, hjson, hafter'⟩ := bind_eq_ok.mp hafter
      refine ⟨?_, ?_, ?_⟩
      · -- the last parameter of the statement is this JSON
        obtain ⟨_, hbind, -⟩ := bind_eq_ok.mp hafter'
        have hfits := bindParams_eq_ok.mp hbind (.text json) (by simp)
        exact writable_transition.mp ⟨json, hjson, hfits⟩
      · have hold' := List.find?_some hold
        rw [(SqliteEffectRow.toRecord_ok hread).effectId, hid]
        exact of_decide_eq_true hold'
      · rw [stateOf_congr (appendEvent_ok hafter).2, stateOf_updateEffect hid hold (hstatus old),
          (SqliteEffectRow.toRecord_ok hread).version]
  · cases h

theorem startAttempt_writes {now : Datetime} {expectedVersion : Int} {workerId attemptId : Str}
    (h : s.startAttempt now e expectedVersion workerId = .ok (attemptId, s')) :
    s'.effects = s.effects ∧ Python.Encodable attemptId := by
  obtain ⟨record, -, h⟩ := bind_eq_ok.mp h
  obtain ⟨_, hbind, h⟩ := bind_eq_ok.mp h
  split at h
  · cases h
  · obtain ⟨after, hafter, h⟩ := bind_eq_ok.mp h
    cases h
    exact ⟨(appendEvent_ok hafter).2, bindParams_eq_ok.mp hbind (.text _) (List.mem_cons_self ..)⟩

end
end SqliteStore

theorem settled_ok {α : Type} {s s' : SqliteStore} {x : Except Exc (α × SqliteStore)} {value : α}
    (h : s.settled x = (.ok value, s')) : x = .ok (value, s') := by
  cases x with
  | ok p =>
    cases h
    rfl
  | error exc => cases h

theorem settled_error {α : Type} {s s' : SqliteStore} {x : Except Exc (α × SqliteStore)} {exc : Exc}
    (h : s.settled x = (.error exc, s')) : x = .error exc ∧ s' = s := by
  cases x with
  | ok p => cases h
  | error exc =>
    cases h
    exact ⟨rfl, rfl⟩

section
variable {s s' : SqliteStore} {now : Datetime} {e workerId : Str} {version : Int}

theorem sqlite_transition_ok {target : EffectStatus} {data : Items} {after : EffectRecord}
    (h : sqliteStore.transition s now e version target data = (.ok after, s')) :
    Writable data ∧ after.effectId = e ∧
      s'.stateOf = Function.update s.stateOf e (some (target, after.version)) :=
  SqliteStore.transition_state (settled_ok h)

theorem sqlite_transition_error {target : EffectStatus} {data : Items} {exc : Exc}
    (h : sqliteStore.transition s now e version target data = (.error exc, s')) :
    s'.stateOf = s.stateOf ∧ Python.Encodable exc.className := by
  obtain ⟨herror, hkept⟩ := settled_error h
  have hown : OwnErrors (s.transition now e version target data) := ownErrors_transition
  rw [herror] at hown
  exact ⟨by rw [hkept], hown.2⟩

theorem sqlite_startAttempt_state :
    (sqliteStore.startAttempt s now e version workerId).2.stateOf = s.stateOf := by
  show SqliteStore.stateOf (s.settled (s.startAttempt now e version workerId)).2 = s.stateOf
  cases h : s.startAttempt now e version workerId with
  | ok p => exact SqliteStore.stateOf_congr (SqliteStore.startAttempt_writes h).1
  | error exc => rfl

theorem sqlite_startAttempt_ok {attemptId : Str}
    (h : sqliteStore.startAttempt s now e version workerId = (.ok attemptId, s')) :
    Python.Encodable attemptId :=
  (SqliteStore.startAttempt_writes (settled_ok h)).2

end

/-- The SQLite store is durable. -/
def sqliteDurable : DurableStore sqliteStore where
  state := SqliteStore.stateOf
  Valid := Writable
  valid_texts := writable_texts
  encodable_worker := encodable_of_writable
  transition_ok := sqlite_transition_ok
  transition_error := sqlite_transition_error
  startAttempt_state := sqlite_startAttempt_state
  startAttempt_ok := sqlite_startAttempt_ok

/-! ## When the SQLite store performs its writes -/

/-- A row that is read is read with any other status, version and lease. -/
theorem SqliteEffectRow.toRecord_moved {row : SqliteEffectRow} {record : EffectRecord}
    (h : row.toRecord = .ok record) (target : EffectStatus) (now : Datetime) (version : Nat) :
    ∃ moved, ({ row with
      status := target.value
      version := version
      updatedAt := now.isoformat
      workerId := none
      leaseWorkerId := none
      leaseUntil := none } : SqliteEffectRow).toRecord = .ok moved := by
  obtain ⟨arguments, harguments, h⟩ := bind_eq_ok.mp h
  obtain ⟨safety, hsafety, h⟩ := bind_eq_ok.mp h
  obtain ⟨keyRetention, hretention, h⟩ := bind_eq_ok.mp h
  obtain ⟨settlementBound, hbound, h⟩ := bind_eq_ok.mp h
  obtain ⟨status, -, h⟩ := bind_eq_ok.mp h
  obtain ⟨createdAt, hcreated, -⟩ := bind_eq_ok.mp h
  unfold SqliteEffectRow.toRecord
  simp only [harguments, hsafety, hretention, hbound, statusOfText_value, hcreated,
    parseTime_isoformat]
  exact ⟨_, rfl⟩

namespace SqliteStore

/-- The tables have room for a write about an effect: what is there can be read, and the next
numbers are free and of 64 bits. -/
@[mk_iff] structure Roomy (s : SqliteStore) (e : Str) : Prop where
  id : (encodeUtf8 e).isSome = true
  row : ∀ row ∈ s.effects, row.effectId = e →
    row.toRecord.toOption.isSome = true ∧ row.version + 1 < 2 ^ 63
  sequence : (s.events.filter (·.effectId = e)).length + 1 < 2 ^ 63
  event : s.events.any (fun row => row.effectId = e ∧
    row.sequence = (s.events.filter (·.effectId = e)).length + 1) = false
  ordinal : (s.attempts.filter (·.effectId = e)).length + 1 < 2 ^ 63
  attempt : s.attempts.any (fun row =>
    row.attemptId = attemptIdOf e ((s.attempts.filter (·.effectId = e)).length + 1) ∨
      (row.effectId = e ∧ row.ordinal = (s.attempts.filter (·.effectId = e)).length + 1)) = false

instance decidableRoomy (s : SqliteStore) (e : Str) : Decidable (s.Roomy e) :=
  decidable_of_iff _ (roomy_iff s e).symm

section
variable {s : SqliteStore} {e : Str}

/-- One more event fits. -/
theorem appendEvent_of_free {eventType : EventType} {version : Nat} {data : Items} {at_ : Datetime}
    (he : Python.Encodable e) (hcount : (s.events.filter (·.effectId = e)).length + 1 < 2 ^ 63)
    (hfree : s.events.any (fun row => row.effectId = e ∧
      row.sequence = (s.events.filter (·.effectId = e)).length + 1) = false)
    (hversion : version < 2 ^ 63) (hdata : Writable data) :
    ∃ s', s.appendEvent e eventType version data at_ = .ok s' := by
  obtain ⟨json, hjson, hencodable⟩ := hdata
  have htype : Python.Encodable eventType.value := by cases eventType <;> exact encodable_str _
  have hbind : bindParams [.text e, .int ((s.events.filter (·.effectId = e)).length + 1 : Nat),
      .text eventType.value, .int version, .text at_.isoformat, .text json] = .ok () := by
    refine bindParams_eq_ok.mpr ?_
    simp only [List.forall_mem_cons, SqliteParam.Fits, he, htype, at_.encodable_isoformat,
      hencodable, true_and]
    refine ⟨⟨by omega, by omega⟩, ⟨by omega, by omega⟩, List.forall_mem_nil _⟩
  unfold appendEvent
  simp only [hjson, ok_bind, hbind, hfree]
  exact ⟨_, rfl⟩

/-- What is read of a row in a state. -/
theorem select_of_state {status : EffectStatus} {version : Nat} (he : Python.Encodable e)
    (hreads : ∀ row, s.effects.find? (·.effectId = e) = some row → ∃ record, row.toRecord = .ok record)
    (hstate : s.stateOf e = some (status, version)) :
    ∃ row record, s.effects.find? (·.effectId = e) = some row ∧ row.toRecord = .ok record ∧
      s.recordForExpectedVersion e version = .ok record ∧ record.status = status ∧
      record.version = version := by
  obtain ⟨row, hfind, hstate⟩ := Option.bind_eq_some_iff.mp hstate
  obtain ⟨record, hread⟩ := hreads row hfind
  obtain ⟨-, hversion, hstatus, -⟩ := SqliteEffectRow.toRecord_ok hread
  rw [hstatus] at hstate
  obtain ⟨rfl, rfl⟩ := Prod.mk.inj (Option.some.inj hstate)
  refine ⟨row, record, hfind, hread, ?_, rfl, hversion⟩
  have hbind : bindParams [.text e] = .ok () := bindParams_eq_ok.mpr (List.forall_mem_singleton.mpr he)
  unfold recordForExpectedVersion selectByEffectId
  simp only [hbind, ok_bind, hfind, hread, Except.map]
  rw [if_neg (by simp [hversion])]

theorem Roomy.reads {row : SqliteEffectRow} (h : s.Roomy e)
    (hfind : s.effects.find? (·.effectId = e) = some row) :
    (∃ record, row.toRecord = .ok record) ∧ row.version + 1 < 2 ^ 63 := by
  have hid := List.find?_some hfind
  obtain ⟨hread, hversion⟩ := h.row row (List.mem_of_find?_eq_some hfind) (of_decide_eq_true hid)
  refine ⟨?_, hversion⟩
  cases hrecord : row.toRecord with
  | ok record => exact ⟨record, rfl⟩
  | error exc =>
    rw [hrecord] at hread
    cases hread

theorem performs_transition {now : Datetime} {status target : EffectStatus} {version : Nat}
    {data : Items} (hroomy : s.Roomy e) (hstate : s.stateOf e = some (status, version))
    (hedge : isAllowed status target = true) (hdata : Writable data) :
    ∃ result, s.transition now e version target data = .ok result := by
  have he := encodeUtf8_isSome.mp hroomy.id
  obtain ⟨row, record, hfind, hread, hrecord, hstatus, hversion⟩ :=
    select_of_state he (fun _ h => (hroomy.reads h).1) hstate
  have hrow : row.version = version := by
    rw [← hversion, (SqliteEffectRow.toRecord_ok hread).version]
  have hnext := (hroomy.reads hfind).2
  have hassert : assertTransition record.status target = .ok () :=
    assertTransition_ok.mpr (hstatus ▸ hedge)
  have hbind : bindParams [.text target.value, .text now.isoformat, .text e, .int version] =
      .ok () := by
    refine bindParams_eq_ok.mpr ?_
    simp only [List.forall_mem_cons, SqliteParam.Fits, he, encodable_status,
      now.encodable_isoformat, true_and]
    exact ⟨⟨by omega, by omega⟩, List.forall_mem_nil _⟩
  have hany : s.effects.any (fun row => row.effectId = e ∧ (row.version : Int) = version) = true := by
    have hid := List.find?_some hfind
    exact List.any_eq_true.mpr ⟨row, List.mem_of_find?_eq_some hfind,
      decide_eq_true ⟨of_decide_eq_true hid, congrArg _ hrow⟩⟩
  generalize hf : (fun row : SqliteEffectRow => { row with
    status := target.value
    version := row.version + 1
    updatedAt := now.isoformat
    workerId := none
    leaseWorkerId := none
    leaseUntil := none }) = f
  have hid : ∀ row, (f row).effectId = row.effectId := fun row => by rw [← hf]
  obtain ⟨moved, hmoved⟩ : ∃ moved, (f row).toRecord = .ok moved := by
    rw [← hf]
    exact SqliteEffectRow.toRecord_moved hread target now (row.version + 1)
  have hmovedVersion : moved.version < 2 ^ 63 := by
    rw [(SqliteEffectRow.toRecord_ok hmoved).version, ← hf]
    exact hnext
  have hselect : (s.updateEffect e f).selectByEffectId e = .ok (some moved) := by
    have hbind : bindParams [.text e] = .ok () :=
      bindParams_eq_ok.mpr (List.forall_mem_singleton.mpr he)
    unfold selectByEffectId
    simp only [hbind, ok_bind, find?_updateEffect hid, hfind, Option.map_some, hmoved, Except.map]
  obtain ⟨after, hafter⟩ : ∃ after, (s.updateEffect e f).appendEvent e .transition moved.version
      (InMemoryStore.transitionData record.status target data) now = .ok after :=
    appendEvent_of_free he hroomy.sequence hroomy.event hmovedVersion (writable_transition.mpr hdata)
  unfold transition
  simp only [hrecord, ok_bind, hassert, hbind]
  rw [if_pos hany, hf]
  simp only [hselect, ok_bind, hafter]
  exact ⟨_, rfl⟩

theorem performs_startAttempt {now : Datetime} {status : EffectStatus} {version : Nat}
    {workerId : Str} (hroomy : s.Roomy e) (hstate : s.stateOf e = some (status, version))
    (hworker : Python.Encodable workerId) :
    ∃ result, s.startAttempt now e version workerId = .ok result := by
  have he := encodeUtf8_isSome.mp hroomy.id
  obtain ⟨row, record, hfind, hread, hrecord, -, hversion⟩ :=
    select_of_state he (fun _ h => (hroomy.reads h).1) hstate
  have hnext := (hroomy.reads hfind).2
  rw [← (SqliteEffectRow.toRecord_ok hread).version] at hnext
  have hordinal := hroomy.ordinal
  have hattempt : Python.Encodable
      (attemptIdOf e ((s.attempts.filter (·.effectId = e)).length + 1)) :=
    encodable_append.mpr ⟨encodable_append.mpr ⟨he, encodable_str _⟩, encodable_decimal _⟩
  have hbind : bindParams [.text (attemptIdOf e ((s.attempts.filter (·.effectId = e)).length + 1)),
      .text e, .int ((s.attempts.filter (·.effectId = e)).length + 1 : Nat), .text workerId,
      .int version, .text now.isoformat] = .ok () := by
    refine bindParams_eq_ok.mpr ?_
    simp only [List.forall_mem_cons, SqliteParam.Fits, he, hattempt, hworker,
      now.encodable_isoformat, true_and]
    exact ⟨⟨by omega, by omega⟩, ⟨by omega, by omega⟩, List.forall_mem_nil _⟩
  have hdata : Writable [(text "attempt_id", .str (attemptIdOf e
        ((s.attempts.filter (·.effectId = e)).length + 1))),
      (text "ordinal", .int ((s.attempts.filter (·.effectId = e)).length + 1 : Nat)),
      (text "worker_id", .str workerId)] :=
    ⟨_, canonicalJson_eq_ok.mpr (storable_attempted _ workerId _).dumps,
      encodable_attempted hattempt hworker _⟩
  unfold startAttempt
  simp only [hrecord, ok_bind, hbind]
  rw [if_neg (by rw [hroomy.attempt]; exact Bool.false_ne_true)]
  -- the row of the attempt leaves the events as they are
  generalize s.attempts ++ _ = attempts
  obtain ⟨after, hafter⟩ : ∃ after, ({ s with attempts := attempts } : SqliteStore).appendEvent e
      .attemptStarted record.version [(text "attempt_id", .str (attemptIdOf e
        ((s.attempts.filter (·.effectId = e)).length + 1))),
      (text "ordinal", .int ((s.attempts.filter (·.effectId = e)).length + 1 : Nat)),
      (text "worker_id", .str workerId)] now = .ok after :=
    appendEvent_of_free he hroomy.sequence hroomy.event (by omega) hdata
  rw [hafter]
  exact ⟨_, rfl⟩

end
end SqliteStore

/-- **The SQLite store performs its writes while it has room.** -/
theorem sqlite_performs {s : SqliteStore} {e : Str} (h : s.Roomy e) :
    sqliteDurable.Performs s e := by
  intro now status version hstate
  constructor
  · intro target data hedge hvalid
    obtain ⟨⟨after, s'⟩, hok⟩ := SqliteStore.performs_transition h hstate hedge hvalid
    exact ⟨after, s', congrArg s.settled hok⟩
  · intro workerId hworker
    obtain ⟨⟨attemptId, s'⟩, hok⟩ := SqliteStore.performs_startAttempt h hstate hworker
    exact ⟨attemptId, s', congrArg s.settled hok⟩

end EffectBroker
