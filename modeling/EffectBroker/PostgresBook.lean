import EffectBroker.PostgresStore
import EffectBroker.SqliteReads

/-!
# The book in the Postgres tables

The rows of the Postgres store are those of a book: the rows of an effect say what its ledger
says, and a receipt is there for a success.  Transactions that hold different keys change
different ledgers of it.
-/
namespace EffectBroker
open Python Transactions

/-! ## JSON columns -/

/-- A value as its column keeps it: plain JSON, in the column's own order. -/
def Jsonb.keep (jsonb : Jsonb) (value : Value) : Value := jsonb.store (normalize value)

theorem jsonValue_eq_ok {value json : Value} (hwf : value.WellFormed) :
    jsonValue value = .ok json ↔ Storable value ∧ json = normalize value := by
  unfold jsonValue
  constructor
  · intro h
    obtain ⟨text, htext, h⟩ := bind_eq_ok.mp h
    have hdumps := canonicalJson_eq_ok.mp htext
    rw [loads_dumps hwf hdumps] at h
    cases h
    exact ⟨⟨hwf, text, hdumps⟩, rfl⟩
  · rintro ⟨⟨-, text, hdumps⟩, rfl⟩
    rw [canonicalJson_eq_ok.mpr hdumps, ok_bind, loads_dumps hwf hdumps]

/-! ## Rows and ledgers -/

/-- A record as its row is read. -/
def Jsonb.read (jsonb : Jsonb) (record : EffectRecord) : Except Exc EffectRecord :=
  (intentColumns record (jsonb.keep record.request.arguments)).toRecord

/-- The row of an effect. -/
def Jsonb.effectRow (jsonb : Jsonb) (l : EffectLedger) : IntentRow :=
  { intentColumns l.record (jsonb.keep l.record.request.arguments) with
    workerId := l.lease.map Lease.workerId
    leaseUntil := l.lease.map Lease.expiresAt }

theorem toRecord_jsonbRow (jsonb : Jsonb) (l : EffectLedger) :
    (jsonb.effectRow l).toRecord = jsonb.read l.record := rfl

/-- The row of an attempt. -/
def Attempt.row (attempt : Attempt) : AttemptRow :=
  ⟨attempt.attemptId, attempt.effectId, attempt.ordinal, attempt.workerId, attempt.version,
    attempt.startedAt⟩

/-- The row of an event. -/
def Jsonb.eventRow (jsonb : Jsonb) (event : MemoryEvent) : EventRow :=
  ⟨event.effectId, event.sequence, event.eventType.value, event.version, event.at_,
    jsonb.keep (.dict event.data)⟩

/-- What a record is read as, if it can be read. -/
theorem Jsonb.read_ok {jsonb : Jsonb} {record read : EffectRecord} (h : jsonb.read record = .ok read) :
    ∃ arguments keyRetention settlementBound, read = { record with
      request := { record.request with arguments }
      contract := { record.contract with keyRetention, settlementBound } } := by
  unfold Jsonb.read IntentRow.toRecord at h
  simp only [intentColumns, safetyOfText_value, statusOfText_value] at h
  obtain ⟨arguments, -, h⟩ := bind_eq_ok.mp h
  obtain ⟨safety, hsafety, h⟩ := bind_eq_ok.mp h
  obtain ⟨keyRetention, -, h⟩ := bind_eq_ok.mp h
  obtain ⟨settlementBound, -, h⟩ := bind_eq_ok.mp h
  obtain ⟨status, hstatus, h⟩ := bind_eq_ok.mp h
  cases hsafety
  cases hstatus
  exact ⟨.dict arguments, keyRetention, settlementBound, (Except.ok.inj h).symm⟩

/-- Whether a record can be read depends on its effect alone. -/
theorem Jsonb.read_same {jsonb : Jsonb} {a b : EffectRecord} (h : SameEffect a b) :
    (∃ read, jsonb.read a = .ok read) → ∃ read, jsonb.read b = .ok read := by
  rintro ⟨read, hread⟩
  unfold Jsonb.read IntentRow.toRecord at hread ⊢
  simp only [intentColumns, safetyOfText_value, statusOfText_value] at hread ⊢
  obtain ⟨arguments, harguments, hread⟩ := bind_eq_ok.mp hread
  obtain ⟨safety, -, hread⟩ := bind_eq_ok.mp hread
  obtain ⟨keyRetention, hkey, hread⟩ := bind_eq_ok.mp hread
  obtain ⟨settlementBound, hbound, -⟩ := bind_eq_ok.mp hread
  have hrequest : b.request = a.request := by rw [h]
  rw [hrequest, h.contract, harguments, hkey, hbound]
  exact ⟨_, rfl⟩

/-! ## Receipts -/

section
open InMemoryStore

/-- The last success, after one more event. -/
theorem lastSuccess_append (events : List MemoryEvent) (event : MemoryEvent) :
    lastSuccess (events ++ [event]) =
      if event.eventType = .transition ∧ tellsSuccess event = true then
        some (((event.data.get? (str "metadata")).bind Value.items?).getD [], event.at_)
      else lastSuccess events := by
  unfold lastSuccess
  rw [List.reverse_append, List.reverse_singleton, List.singleton_append, List.find?_cons]
  by_cases h : event.eventType = .transition ∧ tellsSuccess event = true
  · have hsuccess : (event.eventType == .transition && tellsSuccess event) = true := by simp [h]
    rw [if_pos h]
    change Option.map _ (match event.eventType == .transition && tellsSuccess event with
      | true => _
      | false => _) = _
    rw [hsuccess]
    rfl
  · have hno : (event.eventType == .transition && tellsSuccess event) = false := by
      refine Bool.eq_false_iff.mpr fun hsuccess => h ?_
      rw [Bool.and_eq_true, beq_iff_eq] at hsuccess
      exact hsuccess
    rw [if_neg h]
    change Option.map _ (match event.eventType == .transition && tellsSuccess event with
      | true => _
      | false => _) = _
    rw [hno]

/-- A ledger tells of a success exactly if its effect has succeeded. -/
def EffectLedger.Evident (l : EffectLedger) : Prop :=
  (lastSuccess l.events).isSome ↔ l.record.status = .succeeded

theorem tellsSuccess_moved {source target : EffectStatus} {data : Items} {event : MemoryEvent}
    (h : event.data = transitionData source target data) :
    tellsSuccess event = true ↔ target = .succeeded := by
  have hvalue : tellsSuccess event = (target.value == EffectStatus.succeeded.value) := by
    rw [tellsSuccess, h]
    rfl
  rw [hvalue, beq_iff_eq, EffectStatus.value_injective.eq_iff]

/-- The last success after a move. -/
theorem lastSuccess_moved (l : EffectLedger) (target : EffectStatus) (now : Datetime) (data : Items) :
    lastSuccess (l.moved target now data).events =
      if target = .succeeded then some (data, now) else lastSuccess l.events := by
  show lastSuccess (l.events ++ [_]) = _
  rw [lastSuccess_append]
  by_cases h : target = .succeeded
  · rw [if_pos h, if_pos ⟨rfl, (tellsSuccess_moved rfl).mpr h⟩]
    rfl
  · rw [if_neg h, if_neg fun hs => h ((tellsSuccess_moved rfl).mp hs.2)]

/-- A claim is no success. -/
theorem lastSuccess_claimed (l : EffectLedger) (workerId : Str) (now expiresAt : Datetime) :
    lastSuccess (l.claimed workerId now expiresAt).events = lastSuccess l.events :=
  (lastSuccess_append _ _).trans (if_neg fun hs => by cases hs.1)

/-- An attempt is no success. -/
theorem lastSuccess_attempted (l : EffectLedger) (workerId : Str) (now : Datetime) :
    lastSuccess (l.attempted workerId now).events = lastSuccess l.events :=
  (lastSuccess_append _ _).trans (if_neg fun hs => by cases hs.1)

theorem not_succeeded_of_isAllowed {source target : EffectStatus}
    (h : isAllowed source target = true) : source ≠ .succeeded := by
  intro hs
  rw [hs, isAllowed_of_terminal (by decide)] at h
  cases h

/-- Every step keeps the evidence. -/
theorem LedgerStep.evident {l : Option EffectLedger} {l' : EffectLedger} (h : LedgerStep l l')
    (hbefore : ∀ before, l = some before → before.Evident) : l'.Evident := by
  cases h with
  | @reserved record hs hv =>
    show _ ↔ record.status = .succeeded
    rw [hs]
    constructor
    · intro h
      cases h
    · intro h
      cases h
  | @claimed l workerId now expiresAt hd =>
    have hl := hbefore l rfl
    unfold EffectLedger.Evident
    rw [lastSuccess_claimed]
    exact hl
  | @attempted l workerId now =>
    have hl := hbefore l rfl
    unfold EffectLedger.Evident
    rw [lastSuccess_attempted]
    exact hl
  | @moved l target now data ha =>
    have hl : (lastSuccess l.events).isSome ↔ l.record.status = .succeeded := hbefore l rfl
    unfold EffectLedger.Evident
    rw [lastSuccess_moved]
    by_cases h : target = .succeeded
    · rw [if_pos h]
      exact iff_of_true rfl h
    · rw [if_neg h, hl]
      exact iff_of_false (not_succeeded_of_isAllowed ha) h

end

/-- The row is the receipt of a ledger: it says what the last success says. -/
def ReceiptRow.Tells (jsonb : Jsonb) (row : ReceiptRow) (l : EffectLedger) : Prop :=
  ∃ metadata at_, InMemoryStore.lastSuccess l.events = some (metadata, at_) ∧ row = {
    receiptId := row.receiptId
    effectId := l.id
    externalId := (metadata.get? (str "external_id")).getD .none
    contractName := l.record.contract.name
    contractVersion := l.record.contract.version
    downstreamKey := l.record.downstreamKey
    metadataJson := jsonb.keep (.dict metadata)
    createdAt := at_ }

/-- The ledger, if its effect has succeeded. -/
def EffectLedger.success (l : EffectLedger) : Book :=
  if l.record.status = .succeeded then [l] else []

/-- Receipts stay while no success is added. -/
theorem success_tells {jsonb : Jsonb} {rows : List ReceiptRow} {l l' : EffectLedger}
    (hsame : SameEffect l.record l'.record) (hstatus : l'.record.status = l.record.status)
    (hlast : InMemoryStore.lastSuccess l'.events = InMemoryStore.lastSuccess l.events)
    (h : List.Forall₂ (ReceiptRow.Tells jsonb) rows l.success) :
    List.Forall₂ (ReceiptRow.Tells jsonb) rows l'.success := by
  unfold EffectLedger.success at h ⊢
  rw [hstatus]
  by_cases hs : l.record.status = .succeeded
  · rw [if_pos hs] at h ⊢
    obtain ⟨row, rest, htells, hrest, rfl⟩ := List.forall₂_cons_right_iff.mp h
    cases hrest
    refine .cons ?_ .nil
    obtain ⟨metadata, at_, hsuccess, hrow⟩ := htells
    refine ⟨metadata, at_, hlast.trans hsuccess, ?_⟩
    unfold EffectLedger.id
    rw [hsame]
    exact hrow
  · rw [if_neg hs] at h ⊢
    exact h

/-! ## The book -/

/-- The ledger of an effect after a change that keeps the ids. -/
theorem Book.ledger_map {b : Book} {f : EffectLedger → EffectLedger} (hf : ∀ l ∈ b, (f l).id = l.id)
    (e : Str) : Book.ledger (b.map f) e = (b.ledger e).map f := by
  induction b with
  | nil => rfl
  | cons first rest ih =>
    obtain ⟨hfirst, hrest⟩ := List.forall_mem_cons.mp hf
    have ih := ih hrest
    unfold Book.ledger at ih ⊢
    rw [List.map_cons, List.find?_cons, List.find?_cons, hfirst]
    by_cases he : first.id = e
    · simp [he]
    · simp only [he, decide_false]
      exact ih

/-- The tenants, the ledgers of their effects, and the books that were committed before,
newest first. -/
structure PostgresBook where
  tenants : List Str
  book : Book
  past : List Book := []

/-- The books so far, newest first. -/
def PostgresBook.timeline (a : PostgresBook) : List Book := a.book :: a.past

/-- The books from the one that `n` commits had led to, newest first. -/
def PostgresBook.booksSince (a : PostgresBook) (n : Nat) : List Book :=
  a.timeline.take (a.timeline.length - n)

theorem PostgresBook.mem_timeline {a : PostgresBook} {n : Nat} {b : Book} (h : b ∈ a.booksSince n) :
    b ∈ a.timeline := List.mem_of_mem_take h

/-- A book that came after the start. -/
theorem PostgresBook.mem_booksSince {a₀ b a : PostgresBook} (h : a₀.timeline <:+ b.timeline)
    (h' : b.timeline <:+ a.timeline) : b.book ∈ a.booksSince a₀.past.length := by
  have hlength : a₀.past.length + 1 ≤ b.past.length + 1 := h.length_le
  obtain ⟨newer, hnewer⟩ := h'
  have hcount : a.timeline.length - a₀.past.length =
      newer.length + (b.past.length - a₀.past.length + 1) := by
    rw [← hnewer, List.length_append]
    show newer.length + (b.past.length + 1) - a₀.past.length = _
    omega
  unfold PostgresBook.booksSince
  rw [hcount, ← hnewer, List.take_length_add_append]
  exact List.mem_append_right _ (List.mem_cons_self ..)

/-- The tables hold a book. -/
structure PostgresTables.Holds (jsonb : Jsonb) (s : PostgresTables) (a : PostgresBook) : Prop where
  tenants : s.tenants = a.tenants
  intents : s.intents = a.book.map jsonb.effectRow
  attempts : ∀ e, s.attempts.filter (·.effectId = e) = (a.book.attemptsOf e).map Attempt.row
  events : ∀ e, s.events.filter (·.effectId = e) = (a.book.eventsOf e).map jsonb.eventRow
  receipts : ∀ e, List.Forall₂ (ReceiptRow.Tells jsonb) (s.receipts.filter (·.effectId = e))
    ((a.book.ledger e).elim [] EffectLedger.success)
  good : a.book.Good
  stored : ∀ l ∈ a.book, l.Stored
  evident : ∀ l ∈ a.book, l.Evident
  known : ∀ l ∈ a.book, l.record.tenantId ∈ a.tenants
  readable : ∀ l ∈ a.book, ∃ read, jsonb.read l.record = .ok read

/-- An empty database holds an empty book. -/
theorem PostgresTables.holds_empty (jsonb : Jsonb) :
    PostgresTables.empty.Holds jsonb { tenants := [], book := [] } where
  tenants := rfl
  intents := rfl
  attempts _ := rfl
  events _ := rfl
  receipts _ := .nil
  good := ⟨⟨List.nodup_nil, List.nodup_nil⟩, List.forall_mem_nil _⟩
  stored := List.forall_mem_nil _
  evident := List.forall_mem_nil _
  known := List.forall_mem_nil _
  readable := List.forall_mem_nil _

/-! ## Changing the book -/

/-- The rows of the effects, after rows for a ledger that changes. -/
theorem Book.rows_modify {α ρ : Type} {key : ρ → Str} {row : α → ρ} {part : EffectLedger → List α}
    {b : Book} {e : Str} {l : EffectLedger} {f : EffectLedger → EffectLedger} {rows : List ρ}
    {added : List α} (hf : ∀ l, (f l).id = l.id) (hl : b.ledger e = some l)
    (hrows : ∀ e, rows.filter (key · = e) = (((b.ledger e).map part).getD []).map row)
    (hadded : ∀ a ∈ added, key (row a) = e) (hpart : part (f l) = part l ++ added) (e' : Str) :
    (rows ++ added.map row).filter (key · = e') =
      ((((b.modify e f).ledger e').map part).getD []).map row := by
  rw [Book.ledger_modify hf, hl]
  by_cases he : e' = e
  · rw [if_pos he, SqliteStore.filter_append_of_all, hrows, he, hl]
    · show (part l).map row ++ added.map row = (part (f l)).map row
      rw [hpart, List.map_append]
    · refine List.forall_mem_map.mpr fun a ha => ?_
      exact decide_eq_true ((hadded a ha).trans he.symm)
  · rw [if_neg he, SqliteStore.filter_append_of_none, hrows]
    refine List.forall_mem_map.mpr fun a ha => ?_
    exact decide_eq_false fun hkey => he (hkey.symm.trans (hadded a ha))

/-- The rows of the effects, after the rows of a new ledger. -/
theorem Book.rows_append {α ρ : Type} {key : ρ → Str} {row : α → ρ} {part : EffectLedger → List α}
    {b : Book} {l : EffectLedger} {rows : List ρ} (hid : b.ledger l.id = none)
    (hrows : ∀ e, rows.filter (key · = e) = (((b.ledger e).map part).getD []).map row)
    (hadded : ∀ a ∈ part l, key (row a) = l.id) (e : Str) :
    (rows ++ (part l).map row).filter (key · = e) =
      (((Book.ledger (b ++ [l]) e).map part).getD []).map row := by
  rw [Book.ledger_append]
  by_cases he : l.id = e
  · rw [if_pos he, SqliteStore.filter_append_of_all, hrows, ← he, hid]
    · rfl
    · refine List.forall_mem_map.mpr fun a ha => ?_
      exact decide_eq_true ((hadded a ha).trans he)
  · rw [if_neg he, Option.or_none, SqliteStore.filter_append_of_none, hrows]
    refine List.forall_mem_map.mpr fun a ha => ?_
    exact decide_eq_false fun hkey => he ((hadded a ha).symm.trans hkey)

namespace PostgresTables
variable {jsonb : Jsonb} {s s' : PostgresTables} {a : PostgresBook} {e : Str} {l : EffectLedger}

/-- One ledger takes a step, and the tables with it. -/
theorem Holds.modify (h : s.Holds jsonb a) (attempts : List Attempt) (receipts : List ReceiptRow)
    {f : EffectLedger → EffectLedger} {event : MemoryEvent} (hf : ∀ l, (f l).id = l.id)
    (hl : a.book.ledger e = some l) (hstep : LedgerStep (some l) (f l))
    (htenants : s'.tenants = s.tenants)
    (hintents : s'.intents = (a.book.modify e f).map jsonb.effectRow)
    (hattempts : s'.attempts = s.attempts ++ attempts.map Attempt.row)
    (hevents : s'.events = s.events ++ [jsonb.eventRow event])
    (hreceipts : s'.receipts = s.receipts ++ receipts)
    (hnew : ∀ attempt ∈ attempts, attempt.effectId = e) (hevent : event.effectId = e)
    (hdata : Storable (.dict event.data)) (hlattempts : (f l).attempts = l.attempts ++ attempts)
    (hlevents : (f l).events = l.events ++ [event]) (hreceipt : ∀ row ∈ receipts, row.effectId = e)
    (htells : ∀ rows, List.Forall₂ (ReceiptRow.Tells jsonb) rows l.success →
      List.Forall₂ (ReceiptRow.Tells jsonb) (rows ++ receipts) (f l).success) :
    s'.Holds jsonb { a with book := a.book.modify e f } := by
  obtain ⟨hm, hid⟩ := Book.mem_of_ledger hl
  have hledger := Book.ledger_modify (b := a.book) (e := e) hf
  -- a ledger of the new book is an old one, or the one that has changed
  have hcases : ∀ l' ∈ a.book.modify e f, l' ∈ a.book ∨ l' = f l := by
    intro l' hl'
    obtain ⟨l₀, hl₀, rfl⟩ := List.mem_map.mp hl'
    by_cases he : l₀.id = e
    · have hsame := h.good.ledger_of_mem hl₀
      rw [he, hl] at hsame
      cases hsame
      rw [if_pos he]
      exact .inr rfl
    · rw [if_neg he]
      exact .inl hl₀
  refine ⟨htenants.trans h.tenants, hintents, fun e' => ?_, fun e' => ?_, fun e' => ?_,
    (Book.step_modify h.good.toUnique hl hstep).good h.good, fun l' hl' => ?_, fun l' hl' => ?_,
    fun l' hl' => ?_, fun l' hl' => ?_⟩
  · rw [hattempts]
    exact Book.rows_modify hf hl h.attempts hnew hlattempts e'
  · rw [hevents]
    exact Book.rows_modify hf hl h.events (List.forall_mem_singleton.mpr hevent) hlevents e'
  · show List.Forall₂ _ _ ((Book.ledger (a.book.modify e f) e').elim [] EffectLedger.success)
    rw [hreceipts, hledger, hl]
    by_cases he : e' = e
    · rw [if_pos he, SqliteStore.filter_append_of_all fun row hrow => ?_, he]
      · refine htells _ ?_
        have hrows := h.receipts e
        rwa [hl] at hrows
      · exact decide_eq_true ((hreceipt row hrow).trans he.symm)
    · rw [if_neg he, SqliteStore.filter_append_of_none fun row hrow => ?_]
      · exact h.receipts e'
      · exact decide_eq_false fun hid' => he (hid'.symm.trans (hreceipt row hrow))
  · rcases hcases l' hl' with hl' | rfl
    · exact h.stored l' hl'
    have hstored := h.stored l hm
    refine ⟨?_, fun attempt ha => ?_, fun event' he' => ?_⟩
    · rw [hstep.same]
      exact hstored.arguments
    · rw [hf]
      rw [hlattempts] at ha
      rcases List.mem_append.mp ha with ha | ha
      · exact hstored.attempts attempt ha
      · exact (hnew attempt ha).trans hid.symm
    · rw [hf]
      rw [hlevents] at he'
      rcases List.mem_append.mp he' with he' | he'
      · exact hstored.events event' he'
      · obtain rfl := List.mem_singleton.mp he'
        exact ⟨hevent.trans hid.symm, hdata⟩
  · rcases hcases l' hl' with hl' | rfl
    · exact h.evident l' hl'
    · refine hstep.evident fun before hbefore => ?_
      cases hbefore
      exact h.evident l hm
  · rcases hcases l' hl' with hl' | rfl
    · exact h.known l' hl'
    · rw [hstep.same]
      exact h.known l hm
  · rcases hcases l' hl' with hl' | rfl
    · exact h.readable l' hl'
    · exact Jsonb.read_same hstep.same (h.readable l hm)

/-- A new ledger, and its rows. -/
theorem Holds.append (h : s.Holds jsonb a) {record : EffectRecord} {tenants : List Str}
    (hid : a.book.ledger record.effectId = none)
    (hidentity : a.book.reserved record.tenantId record.request.operationKey = none)
    (hstatus : record.status = .prepared) (hversion : record.version = 0)
    (harguments : Storable record.request.arguments)
    (hread : ∃ read, jsonb.read record = .ok read) (hknown : ∀ t ∈ a.tenants, t ∈ tenants)
    (htenant : record.tenantId ∈ tenants) (htenants : s'.tenants = tenants)
    (hintents : s'.intents = s.intents ++ [jsonb.effectRow (.reserved record)])
    (hattempts : s'.attempts = s.attempts) (hreceipts : s'.receipts = s.receipts)
    (hevents : s'.events = s.events ++ (EffectLedger.reserved record).events.map jsonb.eventRow)
    (hdata : ∀ event ∈ (EffectLedger.reserved record).events, Storable (.dict event.data)) :
    s'.Holds jsonb { a with tenants, book := a.book ++ [.reserved record] } := by
  have hledger (e : Str) : (a.book ++ [EffectLedger.reserved record]).ledger e =
      if e = record.effectId then some (.reserved record) else a.book.ledger e := by
    refine (Book.ledger_append e).trans ?_
    have hreserved : (EffectLedger.reserved record).id = record.effectId := rfl
    rw [hreserved]
    by_cases he : e = record.effectId
    · rw [he, hid, if_pos rfl]
      rfl
    · rw [if_neg he, if_neg fun h => he h.symm, Option.or_none]
  have hstep := LedgerStep.reserved hstatus hversion
  refine ⟨htenants, ?_, fun e => ?_, fun e => ?_, fun e => ?_,
    (Book.Step.reserve hid hidentity hstatus hversion).good h.good, fun l hl => ?_, fun l hl => ?_,
    fun l hl => ?_, fun l hl => ?_⟩
  · rw [hintents, h.intents, List.map_append]
    rfl
  · have hrows : (s.attempts ++ (EffectLedger.reserved record).attempts.map Attempt.row).filter
        (·.effectId = e) = (Book.attemptsOf (a.book ++ [.reserved record]) e).map Attempt.row :=
      Book.rows_append hid h.attempts (List.forall_mem_nil _) e
    rw [hattempts]
    rwa [show (EffectLedger.reserved record).attempts = [] from rfl, List.map_nil,
      List.append_nil] at hrows
  · have hown : ∀ event ∈ (EffectLedger.reserved record).events,
        (jsonb.eventRow event).effectId = record.effectId := List.forall_mem_singleton.mpr rfl
    rw [hevents]
    exact Book.rows_append hid h.events hown e
  · show List.Forall₂ _ _ ((Book.ledger (a.book ++ [_]) e).elim [] EffectLedger.success)
    have hrows := h.receipts e
    rw [hreceipts, hledger]
    by_cases he : e = record.effectId
    · rw [he, hid] at hrows
      rw [if_pos he, he]
      have hnone : (EffectLedger.reserved record).success = [] := by
        refine if_neg fun hs => ?_
        have hs : record.status = .succeeded := hs
        rw [hstatus] at hs
        cases hs
      show List.Forall₂ _ _ (EffectLedger.reserved record).success
      rw [hnone]
      exact hrows
    · rw [if_neg he]
      exact hrows
  · rcases List.mem_append.mp hl with hl | hl
    · exact h.stored l hl
    · obtain rfl := List.mem_singleton.mp hl
      refine ⟨harguments, List.forall_mem_nil _, fun event hevent => ⟨?_, hdata event hevent⟩⟩
      obtain rfl := List.mem_singleton.mp hevent
      rfl
  · rcases List.mem_append.mp hl with hl | hl
    · exact h.evident l hl
    · obtain rfl := List.mem_singleton.mp hl
      refine hstep.evident fun before hbefore => ?_
      cases hbefore
  · rcases List.mem_append.mp hl with hl | hl
    · exact hknown _ (h.known l hl)
    · obtain rfl := List.mem_singleton.mp hl
      exact htenant
  · rcases List.mem_append.mp hl with hl | hl
    · exact h.readable l hl
    · obtain rfl := List.mem_singleton.mp hl
      exact hread

end PostgresTables

/-! ## What transactions with other keys do -/

/-- A ledger, and what it has become: the same record, or one with a higher version. -/
structure EffectLedger.Later (l l' : EffectLedger) : Prop where
  same : SameEffect l.record l'.record
  version : l'.record = l.record ∨ l.record.version < l'.record.version

theorem EffectLedger.Later.refl (l : EffectLedger) : l.Later l := ⟨SameEffect.refl _, .inl rfl⟩

theorem EffectLedger.Later.trans {l l' l'' : EffectLedger} (h : l.Later l') (h' : l'.Later l'') :
    l.Later l'' := by
  refine ⟨h.same.trans h'.same, ?_⟩
  rcases h.version with hsame | hlt
  · rw [← hsame]
    exact h'.version
  · rcases h'.version with hsame' | hlt'
    · rw [hsame']
      exact .inr hlt
    · exact .inr (hlt.trans hlt')

theorem EffectLedger.Later.id {l l' : EffectLedger} (h : l.Later l') : l'.id = l.id := by
  unfold EffectLedger.id
  rw [h.same]

theorem EffectLedger.Later.identity {l l' : EffectLedger} (h : l.Later l') :
    l'.identity = l.identity := by
  unfold EffectLedger.identity
  rw [h.same]

/-- A record with the version of its ledger is the record of its ledger. -/
theorem EffectLedger.Later.record_eq {l l' : EffectLedger} (h : l.Later l')
    (hversion : l'.record.version = l.record.version) : l'.record = l.record := by
  refine h.version.resolve_right fun hlt => ?_
  omega

theorem LedgerStep.later {l l' : EffectLedger} (h : LedgerStep (some l) l') : l.Later l' := by
  refine ⟨h.same, ?_⟩
  cases h with
  | claimed => exact .inr (Nat.lt_succ_self _)
  | attempted => exact .inl rfl
  | moved => exact .inr (Nat.lt_succ_self _)

/-- What other transactions may do to a book while one holds these keys: ledgers stay or
become later ones, and those whose keys are held stay. -/
structure PostgresBook.Rely (held : Set PostgresKey) (a a' : PostgresBook) : Prop where
  tenants : ∀ t ∈ a.tenants, t ∈ a'.tenants
  newTenant : ∀ t, .tenant t ∈ held → t ∈ a'.tenants → t ∈ a.tenants
  later : ∀ e l, a.book.ledger e = some l → ∃ l', a'.book.ledger e = some l' ∧ l.Later l'
  row : ∀ e, .row e ∈ held → a'.book.ledger e = a.book.ledger e
  identity : ∀ tenantId operationKey, .identity tenantId operationKey ∈ held →
    a.book.reserved tenantId operationKey = none → a'.book.reserved tenantId operationKey = none

namespace PostgresBook.Rely
variable {held held' : Set PostgresKey} {a b c : PostgresBook}

theorem refl (held : Set PostgresKey) (a : PostgresBook) : Rely held a a where
  tenants _ ht := ht
  newTenant _ _ ht := ht
  later _ l hl := ⟨l, hl, .refl l⟩
  row _ _ := rfl
  identity _ _ _ h := h

theorem trans (h : Rely held a b) (h' : Rely held b c) : Rely held a c where
  tenants t ht := h'.tenants t (h.tenants t ht)
  newTenant t hk ht := h.newTenant t hk (h'.newTenant t hk ht)
  later e l hl := by
    obtain ⟨l', hl', hlater⟩ := h.later e l hl
    obtain ⟨l'', hl'', hlater'⟩ := h'.later e l' hl'
    exact ⟨l'', hl'', hlater.trans hlater'⟩
  row e hk := (h'.row e hk).trans (h.row e hk)
  identity t k hk hnone := h'.identity t k hk (h.identity t k hk hnone)

/-- With fewer keys there is less to rely on. -/
theorem weaken (h : Rely held a b) (hsubset : held' ⊆ held) : Rely held' a b where
  tenants := h.tenants
  newTenant t hk := h.newTenant t (hsubset hk)
  later := h.later
  row e hk := h.row e (hsubset hk)
  identity t k hk := h.identity t k (hsubset hk)

/-- An identity stays with its effect. -/
theorem reserved (h : Rely held a b) (ha : a.book.Unique) (hb : b.book.Unique) {t k : Str}
    {l : EffectLedger} (hl : a.book.reserved t k = some l) :
    ∃ l', b.book.reserved t k = some l' ∧ l.Later l' := by
  obtain ⟨hm, hidentity⟩ := Book.mem_of_reserved hl
  obtain ⟨l', hl', hlater⟩ := h.later l.id l (ha.ledger_of_mem hm)
  obtain ⟨hm', -⟩ := Book.mem_of_ledger hl'
  obtain ⟨rfl, rfl⟩ := Prod.mk.inj (hlater.identity.trans hidentity)
  exact ⟨l', hb.reserved_of_mem hm', hlater⟩

/-- Steps of ledgers whose rows are not held can be relied on. -/
theorem of_map {f : EffectLedger → EffectLedger}
    (hf : ∀ l ∈ a.book, f l = l ∨ LedgerStep (some l) (f l) ∧ .row l.id ∉ held) :
    Rely held a { a with book := a.book.map f } := by
  have hstep : ∀ l ∈ a.book, f l = l ∨ LedgerStep (some l) (f l) := fun l hl =>
    (hf l hl).imp_right And.left
  have hlater : ∀ l ∈ a.book, l.Later (f l) := by
    intro l hl
    rcases hstep l hl with h | h
    · rw [h]
      exact .refl l
    · exact h.later
  have hledger : ∀ e, Book.ledger (a.book.map f) e = (a.book.ledger e).map f :=
    Book.ledger_map fun l hl => (hlater l hl).id
  refine ⟨fun _ ht => ht, fun _ _ ht => ht, fun e l hl => ?_, fun e hk => ?_, fun t k _ hnone => ?_⟩
  · refine ⟨f l, ?_, hlater l (Book.mem_of_ledger hl).1⟩
    show Book.ledger (a.book.map f) e = _
    rw [hledger, hl]
    rfl
  · show Book.ledger (a.book.map f) e = _
    rw [hledger]
    cases hl : a.book.ledger e with
    | none => rfl
    | some l =>
      obtain ⟨hm, rfl⟩ := Book.mem_of_ledger hl
      rcases hf l hm with h | ⟨-, hnot⟩
      · exact congrArg some h
      · exact absurd hk hnot
  · refine Book.reserved_eq_none.mpr fun l' hl' => ?_
    obtain ⟨l, hl, rfl⟩ := List.mem_map.mp hl'
    rw [(hlater l hl).identity]
    exact Book.reserved_eq_none.mp hnone l hl

/-- A new effect, with keys that are not held, can be relied on. -/
theorem of_append {record : EffectRecord} {tenants : List Str} (htenants : ∀ t ∈ a.tenants, t ∈ tenants)
    (hnew : ∀ t ∈ tenants, t ∈ a.tenants ∨ .tenant t ∉ held)
    (hrow : .row record.effectId ∉ held)
    (hidentity : .identity record.tenantId record.request.operationKey ∉ held) :
    Rely held a { a with tenants, book := a.book ++ [.reserved record] } := by
  have hledger : ∀ e, Book.ledger (a.book ++ [EffectLedger.reserved record]) e =
      (a.book.ledger e).or (if record.effectId = e then some (.reserved record) else none) :=
    fun e => Book.ledger_append e
  refine ⟨htenants, fun t hk ht => (hnew t ht).resolve_right fun h => h hk, fun e l hl => ?_,
    fun e hk => ?_, fun t k hk hnone => ?_⟩
  · refine ⟨l, ?_, .refl l⟩
    show Book.ledger (a.book ++ [_]) e = _
    rw [hledger, hl]
    rfl
  · have hne : record.effectId ≠ e := fun he => hrow (he ▸ hk)
    show Book.ledger (a.book ++ [_]) e = _
    rw [hledger, if_neg hne, Option.or_none]
  · refine Book.reserved_eq_none.mpr fun l hl => ?_
    rcases List.mem_append.mp hl with hl | hl
    · exact Book.reserved_eq_none.mp hnone l hl
    · obtain rfl := List.mem_singleton.mp hl
      intro he
      obtain ⟨rfl, rfl⟩ := Prod.mk.inj he
      exact hidentity hk

end PostgresBook.Rely
end EffectBroker
