import EffectBroker.PostgresClaims
import EffectBroker.PostgresQueries
import EffectBroker.PostgresReservations
import EffectBroker.System

/-!
# Runs of the Postgres store

Any number of processes call the store on one database.  Whatever the order of their
statements is, and whichever transactions are rolled back, the calls that commit are
operations of the book, one after the other (`postgres_serial`).
-/
namespace EffectBroker
open Python Concurrency Transactions

/-! ## What a program ends with -/

/-- The calls that wait for nobody: claims and queries. -/
def StoreCall.neverWaits : StoreCall → Bool
  | .reserve _ _ _ | .startAttempt _ _ _ | .transition _ _ _ _ => false
  | _ => true

/-- What a call may wait for: the others wait in the order of the keys. -/
def TimedCall.Waits (c : TimedCall) (held : Set PostgresKey) (k : PostgresKey) : Prop :=
  c.call.neverWaits = false ∧ InOrder held k

/-- What is claimed of a value, claimed of a reply. -/
def Replies {α : Type} (reply : α → StoreValue) (Q : Post Exc α PostgresWrite PostgresKey PostgresBook) :
    Post Exc StoreValue PostgresWrite PostgresKey PostgresBook := fun result writes held a =>
  ∃ x : Except Exc α, result = x.map reply ∧ Q x writes held a

section
variable {jsonb : Jsonb} {L : Discipline (postgres jsonb) PostgresBook} {a : PostgresBook}

/-- What the program of a call ends with. -/
def CallEnds (L : Discipline (postgres jsonb) PostgresBook) (secrets : Secrets) (c : TimedCall)
    (a₀ : PostgresBook) : Post Exc StoreValue PostgresWrite PostgresKey PostgresBook :=
  match c.call with
  | .reserve tenantId request contract =>
    Replies .reservation (Reserves L secrets c tenantId request contract)
  | .claimDue workerId now leaseFor limit =>
    Replies .effects (ClaimsDue L workerId now leaseFor limit a₀)
  | .startAttempt e expectedVersion workerId =>
    Replies .attemptId (Does L Eq (Book.startAttempt c.now e expectedVersion workerId) fun _ _ => False)
  | .transition e expectedVersion target data =>
    Replies .effect (Does L (fun record y => jsonb.read y = .ok record)
      (Book.transition c.now e expectedVersion target data)
      (MoveRaises L.holds c.uuid e expectedVersion target data))
  | call => Queries jsonb call

theorem safe_replies {α : Type} {p : PostgresProgram α} {reply : α → StoreValue}
    {Q : Post Exc α PostgresWrite PostgresKey PostgresBook} (h : Safe L p [] ∅ a Q) :
    Safe L (p >>= fun x => pure (reply x)) [] ∅ a (Replies reply Q) := by
  rw [safe_map]
  exact h.mono fun result writes held a hQ => ⟨result, rfl, hQ⟩

/-- Every program of the store ends as claimed. -/
theorem safe_program (hL : Governs L) (secrets : Secrets) {c : TimedCall} (hwf : c.WellFormed)
    (hwaits : ∀ held k, c.Waits held k → L.waits held k) :
    Safe L (PostgresStore.program secrets.1 secrets.2 c) [] ∅ a (CallEnds L secrets c a) := by
  obtain ⟨call, now, uuid⟩ := c
  cases call with
  | reserve tenantId request contract =>
    exact safe_replies (safe_reserve hL (fun {held k} h => hwaits held k ⟨rfl, h⟩) hwf)
  | claimDue workerId now leaseFor limit =>
    exact safe_replies (safe_claimDue hL workerId now leaseFor limit)
  | startAttempt e expectedVersion workerId =>
    exact safe_replies (safe_startAttempt hL (fun {held k} h => hwaits held k ⟨rfl, h⟩) now e expectedVersion
      workerId)
  | transition e expectedVersion target data =>
    exact safe_replies (safe_transition hL (fun {held k} h => hwaits held k ⟨rfl, h⟩) now uuid e
      expectedVersion target hwf)
  | get tenantId e => exact safe_get hL tenantId e
  | list tenantId status limit offset => exact safe_list hL tenantId status limit offset
  | receipt tenantId e => exact safe_receipt hL tenantId e
  | events e => exact safe_events hL e
  | attemptCount e =>
    show Safe L (PostgresStore.execute (.countAttempts e) >>= fun n => pure (StoreValue.number n)) [] ∅ a _
    rw [safe_map]
    refine safe_read (fun _ _ _ => rfl) fun a₁ s₁ _ hholds₁ => ⟨rfl, rfl, ?_⟩
    exact congrArg StoreValue.number ((hL.holds hholds₁).attemptCount e)
  | count =>
    show Safe L (PostgresStore.execute .countIntents >>= fun n => pure (StoreValue.number n)) [] ∅ a _
    rw [safe_map]
    refine safe_read (fun _ _ _ => rfl) fun a₁ s₁ _ hholds₁ => ⟨rfl, rfl, ?_⟩
    have hintents := congrArg List.length (hL.holds hholds₁).intents
    rw [List.length_map] at hintents
    exact congrArg StoreValue.number hintents

end

/-! ## What a commit does -/

/-- What a committed call does to the book, and what it replies, if `since` calls had been
committed when it started.  A reply can be about a book that was committed in the meantime:
that of the statement that read it.  A claim passes over rows that are held just then. -/
def CallStep (jsonb : Jsonb) (secrets : Secrets) (c : TimedCall) (since : Nat) (value : StoreValue)
    (a a' : PostgresBook) : Prop :=
  a'.past = a.timeline ∧ match c.call with
  | .reserve tenantId request contract => ∃ reservation y, value = .reservation reservation ∧
      a.book.reserve secrets.1 secrets.2 c.now c.uuid tenantId request contract = .ok (y, a'.book) ∧
      reservation.created = y.created ∧ reservation.replayed = y.replayed ∧
      ∃ b ∈ a'.booksSince since, ∃ l, b.reserved tenantId request.operationKey = some l ∧
        jsonb.read l.record = .ok reservation.effect
  | .claimDue workerId now leaseFor limit => ∃ records, value = .effects records ∧
      (limit ≤ 0 ∧ records = [] ∧ a'.book = a.book ∨
        ∃ leaseUntil skip, ∃ b ∈ a.booksSince since, 0 < limit ∧ now.add leaseFor = some leaseUntil ∧
          List.Forall₂ (fun l record => jsonb.read (claimedRecord l.record now) = .ok record)
            (Book.picksOverdue b.queue skip now limit) records ∧
          (∀ l ∈ Book.picksOverdue b.queue skip now limit, a.book.ledger l.id = some l) ∧
          a'.book = a.book.claimAll ((Book.picksOverdue b.queue skip now limit).map EffectLedger.id)
            workerId now leaseUntil)
  | .startAttempt e expectedVersion workerId => ∃ attemptId, value = .attemptId attemptId ∧
      a.book.startAttempt c.now e expectedVersion workerId = .ok (attemptId, a'.book)
  | .transition e expectedVersion target data => ∃ record y, value = .effect record ∧
      a.book.transition c.now e expectedVersion target data = .ok (y, a'.book) ∧
      jsonb.read y = .ok record
  | call => a'.book = a.book ∧ ∃ b ∈ a.booksSince since, Answers jsonb b call value

/-- Why a call raises, in terms of what was committed at its last statement. -/
def CallRaises (jsonb : Jsonb) (secrets : Secrets) (c : TimedCall) (exc : Exc) (a : PostgresBook) : Prop :=
  match c.call with
  | .reserve tenantId request contract =>
    ReserveRaises jsonb secrets c tenantId request contract exc a.book
  | .claimDue _ now leaseFor limit => exc = .overflowError ∧ 0 < limit ∧ now.add leaseFor = none
  | .startAttempt e expectedVersion workerId =>
    a.book.startAttempt c.now e expectedVersion workerId = .error exc
  | .transition e expectedVersion target data =>
    a.book.transition c.now e expectedVersion target data = .error exc ∨
      MoveRaises (fun s a => s.Holds jsonb a) c.uuid e expectedVersion target data exc a
  | call => QueryRaises call exc

/-- A call whose values are values of Python. -/
abbrev PostgresTask := { c : TimedCall // c.WellFormed }

/-- What is claimed of the calls. -/
def callContract (jsonb : Jsonb) (secrets : Secrets) :
    Contract Exc PostgresTask StoreValue PostgresKey PostgresBook where
  step entry := CallStep jsonb secrets entry.task.1 entry.since entry.value
  raises task exc := CallRaises jsonb secrets task.1 exc
  waits task := task.1.Waits
  age a := a.past.length
  ages hs := by
    rw [hs.1]
    rfl

/-! ## Many transactions -/

/-- What others may do, and that they add to the timeline. -/
structure PostgresBook.Becomes (held : Set PostgresKey) (a a' : PostgresBook) : Prop where
  rely : a.Rely held a'
  timeline : a.timeline <:+ a'.timeline

namespace PostgresBook.Becomes
variable {held : Set PostgresKey} {a b c : PostgresBook}

theorem refl (held : Set PostgresKey) (a : PostgresBook) : Becomes held a a :=
  ⟨.refl held a, List.suffix_rfl⟩

theorem trans (h : Becomes held a b) (h' : Becomes held b c) : Becomes held a c :=
  ⟨h.rely.trans h'.rely, h.timeline.trans h'.timeline⟩

end PostgresBook.Becomes

/-- The discipline of any number of transactions. -/
def sharing (jsonb : Jsonb) (waits : Set PostgresKey → PostgresKey → Prop) :
    Discipline (postgres jsonb) PostgresBook where
  holds s a := s.Holds jsonb a
  rely := PostgresBook.Becomes
  env _ _ := True
  waits
  guard := PostgresKey.guard
  refl := PostgresBook.Becomes.refl
  trans := PostgresBook.Becomes.trans

section
variable {jsonb : Jsonb} {waits : Set PostgresKey → PostgresKey → Prop} {a : PostgresBook}

theorem governs_sharing : Governs (sharing jsonb waits) where
  holds h := h
  rely h := h.rely
  timeline h := h.timeline
  weaken hsubset h := ⟨h.rely.weaken hsubset, h.timeline⟩
  guard := rfl

/-- The tables say nothing of the past. -/
theorem PostgresTables.Holds.of_book {s : PostgresTables} (h : s.Holds jsonb a) {a' : PostgresBook}
    (htenants : a'.tenants = a.tenants) (hbook : a'.book = a.book) : s.Holds jsonb a' := by
  obtain ⟨tenants, book, past⟩ := a'
  subst htenants hbook
  exact ⟨h.tenants, h.intents, h.attempts, h.events, h.receipts, h.good, h.stored, h.evident, h.known,
    h.readable⟩

theorem PostgresBook.Rely.of_book {held : Set PostgresKey} {b b' : PostgresBook} (h : a.Rely held b)
    (htenants : b'.tenants = b.tenants) (hbook : b'.book = b.book) : a.Rely held b' := by
  obtain ⟨tenants, book, past⟩ := b'
  subst htenants hbook
  exact ⟨h.tenants, h.newTenant, h.later, h.row, h.identity⟩

/-- A commit adds a book to the timeline. -/
theorem commits {held : Set PostgresKey} {s : PostgresTables} {writes : List PostgresWrite}
    {P : PostgresBook → Prop} (tenants : List Str) (book : Book)
    (hP : P ⟨tenants, book, a.timeline⟩)
    (hholds : (sees jsonb s writes).Holds jsonb { a with tenants, book })
    (hrely : ∀ others, Disjoint held others → a.Rely others { a with tenants, book }) :
    ∃ a', P a' ∧ (sharing jsonb waits).holds ((postgres jsonb).view s writes) a' ∧
      ∀ others, Disjoint held others → (sharing jsonb waits).rely others a a' := by
  refine ⟨⟨tenants, book, a.timeline⟩, hP, hholds.of_book rfl rfl, fun others hdisjoint => ?_⟩
  exact ⟨(hrely others hdisjoint).of_book rfl rfl, book :: [], rfl⟩

theorem Book.reserved_append {b : Book} {record : EffectRecord}
    (hnone : b.reserved record.tenantId record.request.operationKey = none) :
    Book.reserved (b ++ [.reserved record]) record.tenantId record.request.operationKey =
      some (.reserved record) := by
  unfold Book.reserved at hnone ⊢
  rw [List.find?_append, hnone, Option.none_or, List.find?_singleton]
  exact if_pos (decide_eq_true rfl)

theorem fulfils_reserve {secrets : Secrets} {task : PostgresTask} {tenantId : Str}
    {request : EffectRequest} {contract : EffectContract}
    (hcall : task.1.call = .reserve tenantId request contract) {a₀ : PostgresBook}
    (hstart : a₀.timeline <:+ a.timeline) {result : Except Exc StoreValue}
    {writes : List PostgresWrite} {held : Set PostgresKey}
    (h : Replies .reservation (Reserves (sharing jsonb waits) secrets task.1 tenantId request contract)
      result writes held a) :
    Fulfils (sharing jsonb waits) (callContract jsonb secrets) task a₀.past.length result writes
      held a := by
  obtain ⟨x, rfl, hx⟩ := h
  have hstep : ∀ since value a a', (callContract jsonb secrets).step ⟨task, since, value⟩ a a' =
      CallStep jsonb secrets task.1 since value a a' := fun _ _ _ _ => rfl
  have hraises : ∀ exc a, (callContract jsonb secrets).raises task exc a =
      CallRaises jsonb secrets task.1 exc a := fun _ _ => rfl
  cases x with
  | error exc =>
    show (callContract jsonb secrets).raises task exc a
    rw [hraises, CallRaises, hcall]
    exact hx
  | ok reservation =>
    intro a' s hrely hs
    obtain ⟨record, hnew, hcase⟩ := hx
    obtain ⟨digest, tenantKey, key, -, -, -, hrecord⟩ := newRecord_ok hnew
    have htenant : record.tenantId = tenantId := by rw [hrecord]
    have hrequest : record.request = request := by rw [hrecord]
    clear hrecord
    rcases hcase with ⟨rfl, rfl, hcreated, hreplayed, hunique, l, hl, hhash, hread⟩ |
      ⟨hcreated, hreplayed, hread, hcommit⟩
    · -- the effect of the operation may have moved since
      obtain ⟨l', hl', hlater⟩ := hrely.rely.reserved hunique hs.good.toUnique hl
      have hhash' : l'.record.requestHash = record.requestHash := by
        rw [hlater.same]
        exact hhash
      refine commits a'.tenants a'.book ?_ (hs.of_book rfl rfl)
        fun others _ => (PostgresBook.Rely.refl others a').of_book rfl rfl
      rw [hstep, CallStep, hcall]
      refine ⟨rfl, reservation, ⟨l'.record, false, true⟩, rfl, ?_, hcreated, hreplayed, a.book,
        PostgresBook.mem_booksSince hstart (hrely.timeline.trans (List.suffix_cons ..)), l, hl, hread⟩
      rw [Book.reserve_found hnew hl', if_neg (not_not.mpr hhash')]
    · obtain ⟨hnone, hfresh, tenants, hholds, hothers⟩ := hcommit a' s hrely hs
      refine commits _ _ ?_ hholds hothers
      rw [hstep, CallStep, hcall]
      refine ⟨rfl, reservation, ⟨record, true, false⟩, rfl, ?_, hcreated, hreplayed, _,
        PostgresBook.mem_booksSince ?_ List.suffix_rfl, .reserved record, ?_, hread⟩
      · exact Book.reserve_fresh hnew hnone hfresh
      · exact hstart.trans (hrely.timeline.trans (List.suffix_cons ..))
      · rw [← htenant, ← hrequest] at hnone ⊢
        exact Book.reserved_append hnone

theorem fulfils_claimDue {secrets : Secrets} {task : PostgresTask} {workerId : Str} {now : Datetime}
    {leaseFor : Timedelta} {limit : Int} (hcall : task.1.call = .claimDue workerId now leaseFor limit)
    {a₀ : PostgresBook} {result : Except Exc StoreValue} {writes : List PostgresWrite}
    {held : Set PostgresKey}
    (h : Replies .effects (ClaimsDue (sharing jsonb waits) workerId now leaseFor limit a₀)
      result writes held a) :
    Fulfils (sharing jsonb waits) (callContract jsonb secrets) task a₀.past.length result writes
      held a := by
  obtain ⟨x, rfl, hx⟩ := h
  have hstep : ∀ since value a a', (callContract jsonb secrets).step ⟨task, since, value⟩ a a' =
      CallStep jsonb secrets task.1 since value a a' := fun _ _ _ _ => rfl
  cases x with
  | error exc =>
    show CallRaises jsonb secrets task.1 exc a
    rw [CallRaises, hcall]
    exact hx
  | ok records =>
    intro a' s hrely hs
    rcases hx with ⟨hlimit, rfl, rfl⟩ |
      ⟨leaseUntil, a₁, passed, locked, hlimit, hadd, hstart, -, hunique, hseen, hrecords, hrows, hkept, hcommit⟩
    · refine commits a'.tenants a'.book ?_ (hs.of_book rfl rfl)
        fun others _ => (PostgresBook.Rely.refl others a').of_book rfl rfl
      rw [hstep, CallStep, hcall]
      exact ⟨rfl, [], rfl, .inl ⟨hlimit, rfl, rfl⟩⟩
    · let skip : Str → Bool := fun e => passed e || locked (.row e)
      have hdue : ∀ l ∈ Book.picksOverdue a₁.book.queue skip now limit, l.due now = true :=
        fun l hl => EffectLedger.due_of_overdue (Book.mem_picksOverdue hl).2
      have hpinned : ∀ l ∈ Book.picksOverdue a₁.book.queue skip now limit,
          a'.book.ledger l.id = some l := fun l hl => governs_sharing.keeps (hrows l hl) hrely (hkept l hl)
      refine commits a'.tenants _ ?_ (hcommit a' s hrely hs) fun others hdisjoint => .of_map fun l hl => ?_
      · rw [hstep, CallStep, hcall]
        exact ⟨rfl, records, rfl, .inr ⟨leaseUntil, skip, a₁.book,
          PostgresBook.mem_booksSince hstart.timeline (hseen.timeline.trans hrely.timeline), hlimit,
          hadd, hrecords, hpinned, rfl⟩⟩
      · -- what is claimed is held
        by_cases hm : l.id ∈ (Book.picksOverdue a₁.book.queue skip now limit).map EffectLedger.id
        · obtain ⟨picked, hp, hid⟩ := List.mem_map.mp hm
          have hsame := hs.good.ledger_of_mem hl
          rw [← hid, hpinned picked hp] at hsame
          cases hsame
          rw [if_pos hm]
          exact .inr ⟨.claimed (hdue l hp), Set.disjoint_left.mp hdisjoint (hrows l hp)⟩
        · rw [if_neg hm]
          exact .inl rfl

/-- An operation that is one of the book fulfils its contract. -/
theorem fulfils_does {α β : Type} {secrets : Secrets} {task : PostgresTask} {since : Nat}
    {reply : α → StoreValue} {R : α → β → Prop} {op : Book → Except Exc (β × Book)} {Own : Exc → PostgresBook → Prop}
    (hstep : ∀ x y (a a' : PostgresBook), op a.book = .ok (y, a'.book) → R x y → a'.past = a.timeline →
      CallStep jsonb secrets task.1 since (reply x) a a')
    (hraises : ∀ exc a, op a.book = .error exc ∨ Own exc a → CallRaises jsonb secrets task.1 exc a)
    {result : Except Exc StoreValue} {writes : List PostgresWrite} {held : Set PostgresKey}
    (h : Replies reply (Does (sharing jsonb waits) R op Own) result writes held a) :
    Fulfils (sharing jsonb waits) (callContract jsonb secrets) task since result writes held a := by
  obtain ⟨x, rfl, hx⟩ := h
  cases x with
  | error exc => exact hraises exc a hx
  | ok value =>
    intro a' s hrely hs
    obtain ⟨y, b', hop, hR, hholds, hothers⟩ := hx a' s hrely hs
    exact commits a'.tenants b' (hstep value y a' _ hop hR rfl) hholds hothers

theorem fulfils_query {secrets : Secrets} {task : PostgresTask} {a₀ : PostgresBook}
    (hstart : a₀.timeline <:+ a.timeline)
    (hstep : ∀ value (a a' : PostgresBook), a'.past = a.timeline → a'.book = a.book →
      (∃ b ∈ a.booksSince a₀.past.length, Answers jsonb b task.1.call value) →
      CallStep jsonb secrets task.1 a₀.past.length value a a')
    (hraises : ∀ exc a, QueryRaises task.1.call exc → CallRaises jsonb secrets task.1 exc a)
    {result : Except Exc StoreValue} {writes : List PostgresWrite} {held : Set PostgresKey}
    (h : Queries jsonb task.1.call result writes held a) :
    Fulfils (sharing jsonb waits) (callContract jsonb secrets) task a₀.past.length result writes
      held a := by
  obtain ⟨rfl, rfl, hx⟩ := h
  cases result with
  | error exc => exact hraises exc a hx
  | ok value =>
    intro a' s hrely hs
    have hread := PostgresBook.mem_booksSince hstart hrely.timeline
    exact commits a'.tenants a'.book (hstep value a' _ rfl rfl ⟨a.book, hread, hx⟩)
      (hs.of_book rfl rfl) fun others _ => (PostgresBook.Rely.refl others a').of_book rfl rfl

/-- Every call fulfils its contract. -/
theorem fulfils_call {secrets : Secrets} {task : PostgresTask} {a₀ : PostgresBook}
    (hstart : a₀.timeline <:+ a.timeline) {result : Except Exc StoreValue}
    {writes : List PostgresWrite} {held : Set PostgresKey}
    (h : CallEnds (sharing jsonb waits) secrets task.1 a₀ result writes held a) :
    Fulfils (sharing jsonb waits) (callContract jsonb secrets) task a₀.past.length result writes
      held a := by
  obtain ⟨⟨call, now, uuid⟩, hwf⟩ := task
  cases call with
  | reserve tenantId request contract => exact fulfils_reserve rfl hstart h
  | claimDue workerId now leaseFor limit => exact fulfils_claimDue rfl h
  | startAttempt e expectedVersion workerId =>
    refine fulfils_does ?_ ?_ h
    · intro x y a a' hop hxy hpast
      subst hxy
      exact ⟨hpast, x, rfl, hop⟩
    · intro exc b hraise
      exact hraise.resolve_right fun h => h
  | transition e expectedVersion target data =>
    refine fulfils_does ?_ ?_ h
    · intro x y a a' hop hxy hpast
      exact ⟨hpast, x, y, rfl, hop, hxy⟩
    · intro exc b hraise
      exact hraise
  | get | list | receipt | events | attemptCount | count =>
    refine fulfils_query hstart ?_ ?_ h
    · intro value a a' hpast hbook hanswer
      exact ⟨hpast, hbook, hanswer⟩
    · intro exc b hraise
      exact hraise

/-! ## Every run is serial -/

/-- The program of a task. -/
def postgresProgram (secrets : Secrets) (task : PostgresTask) : PostgresProgram StoreValue :=
  PostgresStore.program secrets.1 secrets.2 task.1

/-- The database with the transactions of any number of processes. -/
abbrev PostgresServer :=
  Server PostgresStatement.Response Exc PostgresTask StoreValue PostgresTables PostgresWrite PostgresKey

/-- The servers that the processes can lead to, from an empty database. -/
abbrev PostgresReachable (jsonb : Jsonb) (secrets : Secrets) (w : PostgresServer) : Prop :=
  ReachableFrom (postgres jsonb) (postgresProgram secrets) (.initial .empty) w

/-- The book of an empty database. -/
def PostgresBook.empty : PostgresBook where
  tenants := []
  book := []

/-- The calls that have been committed, one after the other. -/
abbrev SerialCalls (jsonb : Jsonb) (secrets : Secrets) (log : List (Commit PostgresTask StoreValue))
    (a : PostgresBook) : Prop :=
  Serial (callContract jsonb secrets).step .empty log a

theorem safe_postgresProgram (secrets : Secrets) (task : PostgresTask) (a : PostgresBook) :
    Safe ((sharing jsonb waits).waiting ((callContract jsonb secrets).waits task))
      (postgresProgram secrets task) [] ∅ a
      (Fulfils (sharing jsonb waits) (callContract jsonb secrets) task a.past.length) := by
  show Safe (sharing jsonb task.1.Waits) (PostgresStore.program secrets.1 secrets.2 task.1) [] ∅ a _
  have hends := safe_program (a := a) (L := sharing jsonb task.1.Waits) governs_sharing secrets task.2
    fun _ _ h => h
  refine (hends.since governs_sharing.weaken).mono ?_
  rintro result writes held a' ⟨hstart, h⟩
  exact fulfils_call hstart.timeline h

/-! ## A sample database

One operation of one tenant, and transactions on it. -/

/-- Submit the sample operation. -/
def reserveSample (uuid : Str) : PostgresTask where
  val := ⟨.reserve sampleTenant sampleRequest (sampleContract .idempotent 0), sampleTime 0, uuid⟩
  property := ⟨List.nodup_singleton _, trivial, trivial⟩

/-- Claim one effect for a day. -/
def leaseSample (day : Fin 100) : PostgresTask where
  val := ⟨.claimDue (str "w") (sampleTime day) oneDay 1, sampleTime day, []⟩
  property := trivial

def attemptSample (expectedVersion : Int) : PostgresTask where
  val := ⟨.startAttempt (str "eff_1") expectedVersion (str "w"), sampleTime 0, []⟩
  property := trivial

def moveSample (expectedVersion : Int) (target : EffectStatus) : PostgresTask where
  val := ⟨.transition (str "eff_1") expectedVersion target [], sampleTime 0, str "1"⟩
  property := ⟨List.nodup_nil, trivial⟩

def receiptSample : PostgresTask where
  val := ⟨.receipt sampleTenant (str "eff_1"), sampleTime 0, []⟩
  property := trivial

/-- The next statements of a transaction. -/
def statements (t count : Nat) : List (Move PostgresTask (Str → Bool)) :=
  List.replicate count (.statement t fun _ => false)

/-- A transaction that nothing interrupts. -/
def uninterrupted (t : Nat) (task : PostgresTask) (count : Nat) :
    List (Move PostgresTask (Str → Bool)) :=
  .start t task :: statements t count ++ [.commit t]

/-- The sample operation is submitted, claimed, attempted, and succeeds. -/
def successSample : List (Move PostgresTask (Str → Bool)) :=
  uninterrupted 0 (reserveSample (str "1")) 4 ++ uninterrupted 1 (leaseSample 0) 4 ++
    uninterrupted 2 (attemptSample 1) 5 ++ uninterrupted 3 (moveSample 1 .dispatching) 4 ++
    uninterrupted 4 (moveSample 2 .succeeded) 5

/-- Two callers submit the sample operation. -/
def raceSample : List (Move PostgresTask (Str → Bool)) :=
  [.start 0 (reserveSample (str "1")), .start 1 (reserveSample (str "2"))] ++ statements 0 4 ++
    [.commit 0] ++ statements 1 3

/-- The server that moves lead to, with columns that keep what they are given. -/
@[irreducible]
def sampleServer (moves : List (Move PostgresTask (Str → Bool))) : PostgresServer :=
  Server.after (postgres id) (postgresProgram (sampleHashes, sampleKeys)) (.initial .empty) moves

theorem sampleServer_reachable (moves : List (Move PostgresTask (Str → Bool))) :
    PostgresReachable id (sampleHashes, sampleKeys) (sampleServer moves) := by
  unfold sampleServer
  exact reachableFrom_after _ _ _ moves

/-! ## The guarantees of every run -/

variable {secrets : Secrets} {w : PostgresServer}

/-- A reachable server has committed a serial run, and its open transactions can go on with
it. -/
theorem postgres_consistent (h : PostgresReachable jsonb secrets w) :
    ∃ a, SerialCalls jsonb secrets w.log a ∧
      Consistent (sharing jsonb InOrder) (callContract jsonb secrets) w a :=
  h.serial (L := sharing jsonb InOrder) (PostgresTables.holds_empty jsonb) rfl
    (fun _ _ => trivial) (safe_postgresProgram secrets)

/-- **The store is serializable**: whatever the order of the statements of its transactions,
and whatever is rolled back, what has been committed is one operation of the book after the
other, and the tables hold the book that they lead to. -/
theorem postgres_serial (h : PostgresReachable jsonb secrets w) :
    ∃ a, SerialCalls jsonb secrets w.log a ∧ w.committed.Holds jsonb a := by
  obtain ⟨a, hserial, hconsistent⟩ := postgres_consistent h
  exact ⟨a, hserial, hconsistent.holds⟩

theorem postgres_serial_sample :
    (sampleServer successSample).log.length = 5 ∧
    ∃ a, SerialCalls id (sampleHashes, sampleKeys) (sampleServer successSample).log a ∧
      (sampleServer successSample).committed.Holds id a :=
  ⟨by decide +kernel, postgres_serial (sampleServer_reachable _)⟩

/-- What later servers have committed goes on from there. -/
theorem postgres_later {w' : PostgresServer} (h : PostgresReachable jsonb secrets w)
    (h' : ReachableFrom (postgres jsonb) (postgresProgram secrets) w w') :
    ∃ a newer a', SerialCalls jsonb secrets w.log a ∧ w.committed.Holds jsonb a ∧
      w'.log = newer ++ w.log ∧ Serial (callContract jsonb secrets).step a newer a' ∧
      w'.committed.Holds jsonb a' := by
  obtain ⟨a, hserial, hconsistent⟩ := postgres_consistent h
  obtain ⟨newer, a', hlog, hnewer, hconsistent'⟩ :=
    h'.serialFrom (fun _ _ => trivial) (safe_postgresProgram secrets) hconsistent
  exact ⟨a, newer, a', hserial, hconsistent.holds, hlog, hnewer, hconsistent'.holds⟩

/-- **What raises has its reason**: an exception of an open transaction is explained by its
call and by what had been committed at its last statement.  Where the driver refuses an argument,
the transaction is rolled back. -/
theorem raised_explained (h : PostgresReachable jsonb secrets w) {t : Nat} {task : PostgresTask}
    {since : Nat} {exc : Exc} {writes : List PostgresWrite}
    (ht : w.transaction t = some ⟨task, since, .raised exc, writes⟩) :
    ∃ a, SerialCalls jsonb secrets w.log a ∧ ∃ a₀ : PostgresBook, a₀.timeline <:+ a.timeline ∧
      CallRaises jsonb secrets task.1 exc a₀ := by
  obtain ⟨a, hserial, hconsistent⟩ := postgres_consistent h
  obtain ⟨a₀, hrely, hraises⟩ := hconsistent.raised ht
  exact ⟨a, hserial, a₀, hrely.timeline, hraises⟩

/-- An attempt on a version that the effect does not have. -/
theorem raised_explained_sample :
    let w := sampleServer (uninterrupted 0 (reserveSample (str "1")) 4 ++
      .start 1 (attemptSample 7) :: statements 1 1)
    ∃ a, SerialCalls id (sampleHashes, sampleKeys) w.log a ∧ ∃ a₀ : PostgresBook, ∃ task : PostgresTask,
      a₀.timeline <:+ a.timeline ∧ CallRaises id (sampleHashes, sampleKeys) task.1
        (.versionConflict (str "eff_1 expected version 7, found 0")) a₀ := by
  intro w
  have hexc : (w.transaction 1).bind Transaction.exception =
      some (.versionConflict (str "eff_1 expected version 7, found 0")) := by decide +kernel
  obtain ⟨task, since, writes, ht⟩ := w.exists_raised hexc
  obtain ⟨a, hserial, a₀, hearlier, hraises⟩ := raised_explained (sampleServer_reachable _) ht
  exact ⟨a, hserial, a₀, task, hearlier, hraises⟩

theorem PostgresKey.rank_lt (k : PostgresKey) : k.rank < 7 := by
  cases k <;> simp [PostgresKey.rank]

/-- **No deadlock**: if a transaction is open, one can go on. -/
theorem postgres_canProceed (h : PostgresReachable jsonb secrets w) {t : Nat}
    (hopen : (w.transaction t).isSome) : ∃ u, w.CanProceed (postgres jsonb) u := by
  obtain ⟨a, -, hconsistent⟩ := postgres_consistent h
  exact hconsistent.canProceed (fun _ _ => trivial) PostgresKey.rank 7 PostgresKey.rank_lt
    (fun _ _ _ hwaits => hwaits.2) hopen

/-- Two callers, one of which has inserted the tenant. -/
theorem postgres_canProceed_sample :
    let w := sampleServer (raceSample.take 4)
    w.owner (.tenant sampleTenant) = some 0 ∧ (w.transaction 1).isSome ∧
      ∃ u, w.CanProceed (postgres id) u := by
  intro w
  have hopen : (w.transaction 1).isSome := by decide +kernel
  exact ⟨by decide +kernel, hopen, postgres_canProceed (sampleServer_reachable _) hopen⟩

/-- **Workers never wait**: a transaction of a claim, or of a query, can go on. -/
theorem neverWaits_canProceed (h : PostgresReachable jsonb secrets w) {t : Nat} {task : PostgresTask}
    {since : Nat} {program : PostgresProgram StoreValue} {writes : List PostgresWrite}
    (ht : w.transaction t = some ⟨task, since, program, writes⟩) (hcall : task.1.call.neverWaits = true) :
    w.CanProceed (postgres jsonb) t := by
  obtain ⟨a, -, hconsistent⟩ := postgres_consistent h
  refine hconsistent.never_waits (fun _ _ => trivial) ht fun held k hwaits => ?_
  rw [hwaits.1] at hcall
  cases hcall

/-- A claim, while the row of the effect is locked. -/
theorem neverWaits_canProceed_sample :
    let w := sampleServer (uninterrupted 0 (reserveSample (str "1")) 4 ++
      .start 1 (attemptSample 0) :: statements 1 1 ++ [.start 2 (leaseSample 0)])
    w.owner (.row (str "eff_1")) = some 1 ∧ w.CanProceed (postgres id) 2 := by
  intro w
  have hclaim : (w.transaction 2).any (·.task.1.call.neverWaits) = true := by decide +kernel
  obtain ⟨x, ht, hcall⟩ := (Option.any_eq_true _ _).mp hclaim
  exact ⟨by decide +kernel, neverWaits_canProceed (sampleServer_reachable _) ht hcall⟩

end
end EffectBroker
