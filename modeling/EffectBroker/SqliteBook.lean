import EffectBroker.Agreement
import EffectBroker.EncodableText
import EffectBroker.LedgerStore
import EffectBroker.SqliteStore

/-!
# The book in the SQLite tables

The rows of the SQLite store are those of a book.  What is read from a row is the record
with its payload read back from JSON and its durations from floats.
-/
namespace EffectBroker
open Python Refinement

/-- A value that is read back from the JSON it is stored as. -/
structure Storable (value : Value) : Prop where
  wellFormed : value.WellFormed
  written : ∃ json, dumps value = some json

/-- The JSON of a value. -/
def jsonOf (value : Value) : Str := (dumps value).getD []

theorem Storable.dumps {value : Value} (h : Storable value) : dumps value = some (jsonOf value) := by
  obtain ⟨json, hjson⟩ := h.written
  rw [jsonOf, hjson]
  rfl

theorem Storable.parse {value : Value} (h : Storable value) :
    parseJson (jsonOf value) = .ok (normalize value) := by
  rw [parseJson, loads_dumps h.wellFormed h.dumps]

/-- The row of an effect. -/
def effectRow (l : EffectLedger) : SqliteEffectRow :=
  sqliteColumns l.record (jsonOf l.record.request.arguments) l.lease

/-- The row of an attempt. -/
def attemptRow (attempt : Attempt) : SqliteAttemptRow :=
  ⟨attempt.attemptId, attempt.effectId, attempt.ordinal, attempt.workerId, attempt.version,
    attempt.startedAt.isoformat⟩

/-- The row of an event. -/
def eventRow (event : MemoryEvent) : SqliteEventRow :=
  ⟨event.effectId, event.sequence, event.eventType.value, event.version, event.at_.isoformat,
    jsonOf (.dict event.data)⟩

/-- The values of a ledger can be stored, and its attempts and events are its own. -/
structure EffectLedger.Stored (l : EffectLedger) : Prop where
  arguments : Storable l.record.request.arguments
  attempts : ∀ attempt ∈ l.attempts, attempt.effectId = l.id
  events : ∀ event ∈ l.events, event.effectId = l.id ∧ Storable (.dict event.data)

/-- The hash functions and the keys of the tenants. -/
abbrev Secrets := Hashes × TenantKeyProvider

/-- The tables hold a book. -/
structure SqliteStore.Holds (s : SqliteStore) (secrets : Secrets) (b : Book) : Prop where
  secrets : (s.hashes, s.tenantKeyProvider) = secrets
  effects : s.effects = b.map effectRow
  attempts : ∀ e, s.attempts.filter (·.effectId = e) = (b.attemptsOf e).map attemptRow
  events : ∀ e, s.events.filter (·.effectId = e) = (b.eventsOf e).map eventRow
  good : b.Good
  stored : ∀ l ∈ b, l.Stored

/-- A record as its row is read. -/
def sqliteRead (record : EffectRecord) : Except Exc EffectRecord := do
  let keyRetention ← durationOfReal (realSeconds record.contract.keyRetention)
  let settlementBound ← durationOfReal (realSeconds record.contract.settlementBound)
  return { record with
    request := { record.request with arguments := normalize record.request.arguments }
    contract := { record.contract with keyRetention, settlementBound } }

theorem parseTime_isoformat (t : Datetime) : parseTime t.isoformat = .ok t := by
  rw [parseTime, Datetime.fromisoformat_isoformat]

theorem toRecord_effectRow {l : EffectLedger} (h : Storable l.record.request.arguments) :
    (effectRow l).toRecord = sqliteRead l.record := by
  unfold SqliteEffectRow.toRecord
  simp only [effectRow, sqliteColumns, h.parse, safetyOfText_value, statusOfText_value,
    parseTime_isoformat]
  rfl

/-- What the columns of a row that is read say. -/
structure SqliteEffectRow.Says (row : SqliteEffectRow) (record : EffectRecord) : Prop where
  effectId : record.effectId = row.effectId
  version : record.version = row.version
  status : statusOfText row.status = .ok record.status
  createdAt : parseTime row.createdAt = .ok record.createdAt

theorem SqliteEffectRow.toRecord_ok {row : SqliteEffectRow} {record : EffectRecord}
    (h : row.toRecord = .ok record) : row.Says record := by
  obtain ⟨arguments, -, h⟩ := bind_eq_ok.mp h
  obtain ⟨safety, -, h⟩ := bind_eq_ok.mp h
  obtain ⟨keyRetention, -, h⟩ := bind_eq_ok.mp h
  obtain ⟨settlementBound, -, h⟩ := bind_eq_ok.mp h
  obtain ⟨status, hstatus, h⟩ := bind_eq_ok.mp h
  obtain ⟨createdAt, hcreated, h⟩ := bind_eq_ok.mp h
  obtain ⟨updatedAt, -, h⟩ := bind_eq_ok.mp h
  cases h
  exact ⟨rfl, rfl, hstatus, hcreated⟩

/-! ## Parameters -/

/-- A parameter that a statement can be given. -/
def SqliteParam.Fits : SqliteParam → Prop
  | .text s => Python.Encodable s
  | .int z => -(2 ^ 63) ≤ z ∧ z < 2 ^ 63

theorem SqliteParam.bind_eq_ok {param : SqliteParam} : param.bind = .ok () ↔ param.Fits := by
  cases param with
  | text s =>
    show (if (encodeUtf8 s).isSome then _ else _) = _ ↔ Python.Encodable s
    rw [← encodeUtf8_isSome]
    split <;> simp_all
  | int z =>
    show (if -(2 ^ 63) ≤ z ∧ z < 2 ^ 63 then _ else _) = _ ↔ (-(2 ^ 63) ≤ z ∧ z < 2 ^ 63)
    split <;> simp_all

theorem bindParams_eq_ok {params : List SqliteParam} :
    bindParams params = .ok () ↔ ∀ param ∈ params, param.Fits := by
  induction params with
  | nil => exact iff_of_true rfl fun _ h => nomatch h
  | cons param params ih =>
    rw [List.forall_mem_cons, ← ih, ← SqliteParam.bind_eq_ok, bindParams]
    cases param.bind with
    | ok value => simp
    | error exc => simp

section
variable {α β : Type} {fit : Prop} {R : α → β → Prop} {s : SqliteStore} {b : Book} {e : Str}

/-- Binding parameters fails only if one of them does not fit. -/
theorem agrees_bindParams {params : List SqliteParam} {f : Unit → Except Exc α} {y : Except Exc β}
    (hfit : fit → ∀ param ∈ params, param.Fits)
    (h : (∀ param ∈ params, param.Fits) → Agrees fit R (f ()) y) :
    Agrees fit R (bindParams params >>= f) y := by
  refine Agrees.guard (fun exc hexc hf => ?_) fun _ hok => h (bindParams_eq_ok.mp hok)
  rw [bindParams_eq_ok.mpr (hfit hf)] at hexc
  cases hexc

/-! ## Reading rows -/

theorem find?_effectRow (heffects : s.effects = b.map effectRow) (e : Str) :
    s.effects.find? (·.effectId = e) = (b.ledger e).map effectRow := by
  rw [heffects, List.find?_map]
  rfl

theorem find?_identity (heffects : s.effects = b.map effectRow) (tenantId operationKey : Str) :
    s.effects.find? (fun row => row.tenantId = tenantId ∧ row.operationKey = operationKey) =
      (b.reserved tenantId operationKey).map effectRow := by
  rw [heffects, List.find?_map, Book.reserved]
  refine congrArg (fun p => (b.find? p).map effectRow) (funext fun l => decide_eq_decide.mpr ?_)
  exact Prod.mk_inj.symm

/-- Select the row of an effect. -/
theorem selectByEffectId_eq (heffects : s.effects = b.map effectRow)
    (hstored : ∀ l ∈ b, Storable l.record.request.arguments) (e : Str) :
    s.selectByEffectId e = (bindParams [.text e] >>= fun _ =>
      match b.ledger e with
      | none => .ok none
      | some l => (sqliteRead l.record).map some) := by
  unfold SqliteStore.selectByEffectId
  rw [find?_effectRow heffects]
  cases hl : b.ledger e with
  | none => rfl
  | some l =>
    simp only [Option.map_some]
    rw [toRecord_effectRow (hstored l (Book.mem_of_ledger hl).1)]

/-! ## Appending events -/

/-- The next event of an effect, numbered by the rows of the effect. -/
def nextEvent (s : SqliteStore) (e : Str) (eventType : EventType) (version : Nat) (data : Items)
    (at_ : Datetime) : MemoryEvent :=
  ⟨e, (s.events.filter (·.effectId = e)).length + 1, eventType, version, at_, data⟩

/-- The store with one more event. -/
def withEvent (s : SqliteStore) (event : MemoryEvent) : SqliteStore :=
  { s with events := s.events ++ [eventRow event] }

theorem agrees_appendEvent {eventType : EventType} {version : Nat} {data : Items} {at_ : Datetime}
    {f : SqliteStore → Except Exc α} {y : Except Exc β}
    (hnumbered : ∀ row ∈ s.events, row.effectId = e →
      row.sequence ≤ (s.events.filter (·.effectId = e)).length)
    (hfit : fit → Python.Encodable e ∧ (s.events.filter (·.effectId = e)).length + 1 < 2 ^ 63 ∧
      version < 2 ^ 63 ∧ ∃ json, dumps (.dict data) = some json ∧ Python.Encodable json)
    (h : (∃ json, dumps (.dict data) = some json) →
      Agrees fit R (f (withEvent s (nextEvent s e eventType version data at_))) y) :
    Agrees fit R (s.appendEvent e eventType version data at_ >>= f) y := by
  unfold SqliteStore.appendEvent
  cases hjson : canonicalJson (.dict data) with
  | error exc =>
    refine .unfit fun hf => ?_
    obtain ⟨-, -, -, json, hdumps, -⟩ := hfit hf
    rw [canonicalJson_eq_ok.mpr hdumps] at hjson
    cases hjson
  | ok json =>
    have hdumps := canonicalJson_eq_ok.mp hjson
    have hrow : json = jsonOf (.dict data) := by
      rw [jsonOf, hdumps]
      rfl
    rw [ok_bind, bind_assoc]
    refine agrees_bindParams (fun hf => ?_) fun _ => ?_
    · obtain ⟨he, hlength, hversion, json', hjson', hencodable⟩ := hfit hf
      obtain rfl : json' = json := Option.some.inj (hjson'.symm.trans hdumps)
      have htype : Python.Encodable eventType.value := by cases eventType <;> exact encodable_str _
      simp only [List.forall_mem_cons, SqliteParam.Fits, he, htype, at_.encodable_isoformat,
        hencodable, true_and]
      refine ⟨by omega, by omega, fun _ h => nomatch h⟩
    · have hfree : ¬(s.events.any fun row => decide (row.effectId = e ∧
          row.sequence = (s.events.filter (·.effectId = e)).length + 1)) = true := by
        intro hany
        obtain ⟨row, hrow, heq⟩ := List.any_eq_true.mp hany
        obtain ⟨hid, hsequence⟩ := of_decide_eq_true heq
        have := hnumbered row hrow hid
        omega
      rw [if_neg hfree, hrow]
      exact h ⟨json, hdumps⟩

/-- Select the row of an identity. -/
theorem selectByIdentity_eq (heffects : s.effects = b.map effectRow)
    (hstored : ∀ l ∈ b, Storable l.record.request.arguments) (tenantId operationKey : Str) :
    s.selectByIdentity tenantId operationKey =
      (bindParams [.text tenantId, .text operationKey] >>= fun _ =>
        match b.reserved tenantId operationKey with
        | none => .ok none
        | some l => (sqliteRead l.record).map some) := by
  unfold SqliteStore.selectByIdentity
  rw [find?_identity heffects]
  cases hl : b.reserved tenantId operationKey with
  | none => rfl
  | some l =>
    simp only [Option.map_some]
    rw [toRecord_effectRow (hstored l (Book.mem_of_reserved hl).1)]

end

/-! ## Changing the book -/

namespace SqliteStore
variable {s s' : SqliteStore} {secrets : Secrets} {b : Book} {e : Str} {l : EffectLedger}

theorem Holds.arguments (h : s.Holds secrets b) : ∀ l ∈ b, Storable l.record.request.arguments :=
  fun l hl => (h.stored l hl).arguments

/-- The events of an effect are numbered from one. -/
theorem Holds.numbered (h : s.Holds secrets b) (e : Str) : ∀ row ∈ s.events, row.effectId = e →
    row.sequence ≤ (s.events.filter (·.effectId = e)).length := by
  intro row hrow he
  have hm : row ∈ s.events.filter (·.effectId = e) := List.mem_filter.mpr ⟨hrow, by simpa using he⟩
  rw [h.events, List.length_map]
  rw [h.events] at hm
  obtain ⟨event, hevent, rfl⟩ := List.mem_map.mp hm
  cases hl : b.ledger e with
  | none =>
    rw [Book.eventsOf, hl] at hevent
    cases hevent
  | some l =>
    rw [Book.eventsOf, hl] at hevent ⊢
    have hnumbered := (h.good.sound l (Book.mem_of_ledger hl).1).story.numbered
    have hsequence : event.sequence ∈ l.events.map MemoryEvent.sequence :=
      List.mem_map.mpr ⟨event, hevent, rfl⟩
    rw [hnumbered, List.mem_range'_1] at hsequence
    show event.sequence ≤ l.events.length
    omega

theorem filter_append_of_all {α : Type} {p : α → Bool} {list added : List α}
    (h : ∀ a ∈ added, p a = true) : (list ++ added).filter p = list.filter p ++ added := by
  rw [List.filter_append, List.filter_eq_self.mpr h]

theorem filter_append_of_none {α : Type} {p : α → Bool} {list added : List α}
    (h : ∀ a ∈ added, p a = false) : (list ++ added).filter p = list.filter p := by
  have hnone : added.filter p = [] := List.filter_eq_nil_iff.mpr fun a ha => by simp [h a ha]
  rw [List.filter_append, hnone, List.append_nil]

/-- One ledger takes a step, and the tables with it. -/
theorem Holds.modify (h : s.Holds secrets b) (attempts : List Attempt) {f : EffectLedger → EffectLedger}
    {event : MemoryEvent} (hf : ∀ l, (f l).id = l.id) (hl : b.ledger e = some l)
    (hstep : LedgerStep (some l) (f l))
    (hsecrets : (s'.hashes, s'.tenantKeyProvider) = (s.hashes, s.tenantKeyProvider))
    (heffects : s'.effects = (b.modify e f).map effectRow)
    (hattempts : s'.attempts = s.attempts ++ attempts.map attemptRow)
    (hevents : s'.events = s.events ++ [eventRow event])
    (hnew : ∀ attempt ∈ attempts, attempt.effectId = e) (hevent : event.effectId = e)
    (hdata : Storable (.dict event.data)) (hlattempts : (f l).attempts = l.attempts ++ attempts)
    (hlevents : (f l).events = l.events ++ [event]) : s'.Holds secrets (b.modify e f) := by
  obtain ⟨hm, hid⟩ := Book.mem_of_ledger hl
  have hledger := Book.ledger_modify (b := b) (e := e) hf
  refine ⟨hsecrets.trans h.secrets, heffects, fun e' => ?_, fun e' => ?_, (Book.step_modify h.good.toUnique hl hstep).good h.good,
    fun l' hl' => ?_⟩
  · rw [hattempts, Book.attemptsOf, hledger, hl]
    by_cases he : e' = e
    · rw [if_pos he, filter_append_of_all fun row hrow => ?_, h.attempts, he, Book.attemptsOf, hl]
      · show l.attempts.map attemptRow ++ _ = (f l).attempts.map attemptRow
        rw [hlattempts, List.map_append]
      · obtain ⟨attempt, ha, rfl⟩ := List.mem_map.mp hrow
        exact decide_eq_true ((hnew attempt ha).trans he.symm)
    · rw [if_neg he, filter_append_of_none fun row hrow => ?_, h.attempts, Book.attemptsOf]
      obtain ⟨attempt, ha, rfl⟩ := List.mem_map.mp hrow
      exact decide_eq_false fun hrow => he (hrow.symm.trans (hnew attempt ha))
  · rw [hevents, Book.eventsOf, hledger, hl]
    by_cases he : e' = e
    · rw [if_pos he, filter_append_of_all fun row hrow => ?_, h.events, he, Book.eventsOf, hl]
      · show l.events.map eventRow ++ _ = (f l).events.map eventRow
        rw [hlevents, List.map_append, List.map_singleton]
      · rw [List.mem_singleton.mp hrow]
        exact decide_eq_true (hevent.trans he.symm)
    · rw [if_neg he, filter_append_of_none fun row hrow => ?_, h.events, Book.eventsOf]
      rw [List.mem_singleton.mp hrow]
      exact decide_eq_false fun hrow => he (hrow.symm.trans hevent)
  · obtain ⟨l₀, hl₀, rfl⟩ := List.mem_map.mp hl'
    by_cases he : l₀.id = e
    · rw [if_pos he]
      have hsame := h.good.ledger_of_mem hl₀
      rw [he, hl] at hsame
      cases hsame
      have hstored := h.stored l hm
      refine ⟨?_, fun attempt ha => ?_, fun event' he' => ?_⟩
      · rw [hstep.same]
        exact hstored.arguments
      · rw [hf]
        rw [hlattempts] at ha
        rcases List.mem_append.mp ha with ha | ha
        · exact hstored.attempts attempt ha
        · exact (hnew attempt ha).trans hid.symm
      · rw [hf]
        rw [hlevents] at he'
        rcases List.mem_append.mp he' with he' | he'
        · exact hstored.events event' he'
        · obtain rfl := List.mem_singleton.mp he'
          exact ⟨hevent.trans hid.symm, hdata⟩
    · rw [if_neg he]
      exact h.stored l₀ hl₀

/-- A new ledger, and its rows. -/
theorem Holds.append (h : s.Holds secrets b) {record : EffectRecord}
    (hid : b.ledger record.effectId = none)
    (hidentity : b.reserved record.tenantId record.request.operationKey = none)
    (hstatus : record.status = .prepared) (hversion : record.version = 0)
    (harguments : Storable record.request.arguments)
    (hsecrets : (s'.hashes, s'.tenantKeyProvider) = (s.hashes, s.tenantKeyProvider))
    (heffects : s'.effects = (b ++ [EffectLedger.reserved record]).map effectRow)
    (hattempts : s'.attempts = s.attempts)
    (hevents : s'.events = s.events ++ (EffectLedger.reserved record).events.map eventRow)
    (hdata : ∀ event ∈ (EffectLedger.reserved record).events, Storable (.dict event.data)) :
    s'.Holds secrets (b ++ [.reserved record]) := by
  have hledger (e : Str) : (b ++ [EffectLedger.reserved record]).ledger e =
      if e = record.effectId then some (.reserved record) else b.ledger e := by
    refine (Book.ledger_append e).trans ?_
    have hreserved : (EffectLedger.reserved record).id = record.effectId := rfl
    rw [hreserved]
    by_cases he : e = record.effectId
    · rw [he, hid, if_pos rfl]
      rfl
    · rw [if_neg he, if_neg fun h => he h.symm, Option.or_none]
  refine ⟨hsecrets.trans h.secrets, heffects, fun e => ?_, fun e => ?_, (Book.Step.reserve hid hidentity hstatus hversion).good
    h.good, fun l hl => ?_⟩
  · rw [hattempts, h.attempts, Book.attemptsOf, Book.attemptsOf, hledger]
    by_cases he : e = record.effectId
    · rw [if_pos he, he, hid]
      rfl
    · rw [if_neg he]
  · rw [hevents, Book.eventsOf, hledger]
    by_cases he : e = record.effectId
    · rw [if_pos he, filter_append_of_all fun row hrow => ?_, h.events, Book.eventsOf, he, hid]
      · rfl
      · obtain ⟨event, hevent, rfl⟩ := List.mem_map.mp hrow
        obtain rfl := List.mem_singleton.mp hevent
        exact decide_eq_true he.symm
    · rw [if_neg he, filter_append_of_none fun row hrow => ?_, h.events, Book.eventsOf]
      obtain ⟨event, hevent, rfl⟩ := List.mem_map.mp hrow
      obtain rfl := List.mem_singleton.mp hevent
      exact decide_eq_false fun h => he h.symm
  · rcases List.mem_append.mp hl with hl | hl
    · exact h.stored l hl
    · obtain rfl := List.mem_singleton.mp hl
      refine ⟨harguments, fun _ h => (nomatch h), fun event hevent => ⟨?_, hdata event hevent⟩⟩
      obtain rfl := List.mem_singleton.mp hevent
      rfl

end SqliteStore
end EffectBroker
