import EffectBroker.Leases
import EffectBroker.PostgresRecords

/-!
# The Postgres store, one call at a time

While no other transaction is open, every call of the Postgres store ends, and it does what
the book does.  Claims are the exception: a lease that ends this instant is over for the book,
as for the other two stores, and not yet over for this one.
-/
namespace EffectBroker
open Python Concurrency Transactions Refinement

/-! ## A transaction alone -/

/-- The discipline of a transaction while no other is open: nothing moves. -/
def solitary (jsonb : Jsonb) (tables : PostgresTables) : Discipline (postgres jsonb) PostgresBook where
  holds s a := s = tables ∧ s.Holds jsonb a
  rely _ a a' := a' = a
  env passed locked := (∀ e, passed e = false) ∧ ∀ k, locked k = false
  waits _ _ := True
  guard := PostgresKey.guard
  refl _ _ := rfl
  trans h h' := h'.trans h

section
variable {jsonb : Jsonb} {s tables : PostgresTables} {secrets : Secrets}

theorem governs_solitary : Governs (solitary jsonb tables) where
  holds h := h.2
  rely h := by
    subst h
    exact .refl _ _
  timeline h := by
    subst h
    exact List.suffix_rfl
  weaken _ h := h
  guard := rfl

/-- A call alone ends as claimed. -/
theorem alone_ends {a : PostgresBook} (hs : s.Holds jsonb a) {c : TimedCall} (hwf : c.WellFormed) :
    ∃ result writes held, (postgres jsonb).alone (fun _ => false)
        (PostgresStore.program secrets.1 secrets.2 c) [] s = some (result, writes) ∧
      CallEnds (solitary jsonb s) secrets c a result writes held a :=
  (safe_program governs_solitary secrets hwf fun _ _ _ => trivial).alone
    (L := solitary jsonb s) ⟨fun _ => rfl, fun _ => rfl⟩ ⟨rfl, hs⟩

/-! ## Claims -/

/-- The first elements of a smaller filter are those of the larger one if and only if they all
belong to the smaller one. -/
theorem take_filter_eq_iff {α : Type} {p q : α → Bool} (hqp : ∀ x, q x = true → p x = true)
    (list : List α) (n : Nat) :
    (list.filter q).take n = (list.filter p).take n ↔ ∀ x ∈ (list.filter p).take n, q x = true := by
  constructor
  · intro hsame x hx
    rw [← hsame] at hx
    exact (List.mem_filter.mp (List.mem_of_mem_take hx)).2
  · induction list generalizing n with
    | nil => exact fun _ => rfl
    | cons x rest ih =>
      intro hall
      by_cases hp : p x = true
      · rw [List.filter_cons_of_pos hp] at hall ⊢
        cases n with
        | zero => rfl
        | succ n =>
          rw [List.take_succ_cons, List.forall_mem_cons] at hall
          rw [List.filter_cons_of_pos hall.1, List.take_succ_cons, List.take_succ_cons,
            ih n hall.2]
      · have hq : ¬q x = true := fun hq => hp (hqp x hq)
        rw [List.filter_cons_of_neg hp] at hall ⊢
        rw [List.filter_cons_of_neg hq]
        exact ih n hall

/-- A due effect is overdue unless its lease ends this instant. -/
theorem EffectLedger.overdue_iff {l : EffectLedger} {now : Datetime} (hdue : l.due now = true) :
    l.overdue now = true ↔ ∀ lease ∈ l.lease, lease.expiresAt ≠ now := by
  unfold EffectLedger.due at hdue
  unfold EffectLedger.overdue
  rw [Bool.and_eq_true] at hdue ⊢
  obtain ⟨hstatus, hlease⟩ := hdue
  cases hsome : l.lease with
  | none => simp [hstatus]
  | some lease =>
    rw [hsome] at hlease
    have hle : lease.expiresAt ≤ now := of_decide_eq_true hlease
    constructor
    · rintro ⟨-, hlt⟩ lease' hlease' heq
      cases hlease'
      have hlt : lease.expiresAt < now := of_decide_eq_true hlt
      rw [heq] at hlt
      exact lt_irrefl _ hlt
    · intro hne
      exact ⟨hstatus, decide_eq_true (lt_of_le_of_ne hle (hne lease rfl))⟩

/-- A claim takes what the book would take unless a lease ends this instant. -/
theorem Book.picksOverdue_eq_iff (queue : Book) (now : Datetime) (limit : Int) :
    queue.picksOverdue (fun _ => false) now limit = queue.picks now limit ↔
      ∀ l ∈ queue.picks now limit, ∀ lease ∈ l.lease, lease.expiresAt ≠ now := by
  unfold Book.picksOverdue Book.picks
  have hskip : (fun _ => !false : EffectLedger → Bool) = fun _ => true := rfl
  rw [hskip, List.filter_true, take_filter_eq_iff (fun _ => EffectLedger.due_of_overdue)]
  refine forall₂_congr fun l hl => ?_
  exact EffectLedger.overdue_iff (List.mem_filter.mp (List.mem_of_mem_take hl)).2


end

/-! ## All calls -/

/-- What the book replies, and what is read of it. -/
inductive JsonbReply (jsonb : Jsonb) : StoreValue → StoreValue → Prop
  | reservation {p q : Reservation} : jsonb.read q.effect = .ok p.effect → p.created = q.created →
      p.replayed = q.replayed → JsonbReply jsonb (.reservation p) (.reservation q)
  | effects {p q} : List.Forall₂ (fun record read => jsonb.read record = .ok read) q p →
      JsonbReply jsonb (.effects p) (.effects q)
  | attemptId {a} : JsonbReply jsonb (.attemptId a) (.attemptId a)
  | effect {p q} : jsonb.read q = .ok p → JsonbReply jsonb (.effect p) (.effect q)
  | found {p} {q : Option EffectLedger} : Option.Rel (fun l read => jsonb.read l.record = .ok read) q p →
      JsonbReply jsonb (.found p) (.found (q.map EffectLedger.record))
  | receipt {q : Option EffectLedger} :
      JsonbReply jsonb (.receipt (q.bind jsonb.readReceipt)) (.receipt (q.bind EffectLedger.receipt))
  | events {q : List MemoryEvent} :
      JsonbReply jsonb (.events (q.map jsonb.readEvent)) (.events (q.map MemoryEvent.stored))
  | number {n} : JsonbReply jsonb (.number n) (.number n)

/-- A call that the other stores would serve alike: fresh ids are fresh, what it stores can be
stored and read, no lease ends this instant, and a page has no negative bounds. -/
def PostgresStore.Fits (s : PostgresStore) (c : TimedCall) : Prop :=
  c.WellFormed ∧ match c.call with
  | .reserve tenantId request contract => ∀ record,
      newRecord s.hashes s.tenantKeyProvider c.now c.uuid tenantId request contract = .ok record →
        s.tables.hasIntent record.effectId = false ∧ ∃ read, s.jsonb.read record = .ok read
  | .claimDue _ now _ _ => ∀ row ∈ s.tables.intents, row.leaseUntil ≠ some now
  | .transition _ _ target data => Storable (.dict data) ∧ (target = .succeeded →
      ∀ receipt ∈ s.tables.receipts, receipt.receiptId ≠ str "rcpt_" ++ c.uuid)
  | .list _ _ limit offset => 0 ≤ limit ∧ 0 ≤ offset
  | _ => True

/-- The store has done what the book does. -/
structure PostgresFollows (s s' : PostgresStore) (reply : Except Exc StoreValue)
    (out : Except Exc StoreValue × Book) : Prop where
  reply : Agrees True (JsonbReply s.jsonb) reply out.1
  secrets : (s'.hashes, s'.tenantKeyProvider, s'.jsonb) = (s.hashes, s.tenantKeyProvider, s.jsonb)
  holds : ∃ tenants, s'.tables.Holds s.jsonb ⟨tenants, out.2, []⟩

section
variable {s : PostgresStore} {tenants : List Str} {b : Book} {c : TimedCall}

/-- A call that raises leaves the tables. -/
theorem PostgresFollows.raised (hs : s.tables.Holds s.jsonb ⟨tenants, b, []⟩) (exc : Exc) :
    PostgresFollows s s (.error exc) (.error exc, b) :=
  ⟨.error, rfl, tenants, hs⟩

/-- What is served is what the program ends with. -/
theorem PostgresStore.serve_ends {P : Except Exc StoreValue × PostgresStore → Prop}
    (hs : s.tables.Holds s.jsonb ⟨tenants, b, []⟩) (hwf : c.WellFormed)
    (hok : ∀ value writes held, CallEnds (solitary s.jsonb s.tables) (s.hashes, s.tenantKeyProvider) c
        ⟨tenants, b, []⟩ (.ok value) writes held ⟨tenants, b, []⟩ →
      P (.ok value, { s with tables := sees s.jsonb s.tables writes }))
    (herror : ∀ exc writes held, CallEnds (solitary s.jsonb s.tables) (s.hashes, s.tenantKeyProvider)
        c ⟨tenants, b, []⟩ (.error exc) writes held ⟨tenants, b, []⟩ → P (.error exc, s)) :
    P (s.serve c) := by
  let secrets : Secrets := (s.hashes, s.tenantKeyProvider)
  obtain ⟨result, writes, held, halone, hends⟩ := @alone_ends s.jsonb s.tables secrets _ hs _ hwf
  unfold PostgresStore.serve
  rw [halone]
  cases result with
  | ok value => exact hok value writes held hends
  | error exc => exact herror exc writes held hends

theorem follows_reserve (hs : s.tables.Holds s.jsonb ⟨tenants, b, []⟩) {now : Datetime}
    {uuid tenantId : Str} {request : EffectRequest} {contract : EffectContract}
    (hfit : s.Fits ⟨.reserve tenantId request contract, now, uuid⟩) :
    PostgresFollows s (s.serve ⟨.reserve tenantId request contract, now, uuid⟩).2
      (s.serve ⟨.reserve tenantId request contract, now, uuid⟩).1
      (b.serve s.hashes s.tenantKeyProvider ⟨.reserve tenantId request contract, now, uuid⟩) := by
  obtain ⟨hwf, hfit⟩ := hfit
  have hserve : b.serve s.hashes s.tenantKeyProvider ⟨.reserve tenantId request contract, now, uuid⟩ =
      b.outcome .reservation
        (b.reserve s.hashes s.tenantKeyProvider now uuid tenantId request contract) := rfl
  rw [hserve]
  have hfree : ∀ record, newRecord s.hashes s.tenantKeyProvider now uuid tenantId request contract =
      .ok record → b.ledger record.effectId = none := by
    intro record hnew
    have hnone := (hfit record hnew).1
    cases hl : b.ledger record.effectId with
    | none => rfl
    | some l =>
      rw [hs.hasIntent hl] at hnone
      cases hnone
  refine PostgresStore.serve_ends (P := fun out => PostgresFollows s out.2 out.1 _) hs hwf ?_ ?_
  · rintro value writes held ⟨x, hvalue, hx⟩
    cases x with
    | error exc => cases hvalue
    | ok reservation =>
      cases hvalue
      obtain ⟨record, hnew, ⟨rfl, rfl, hcreated, hreplayed, -, l, hl, hhash, hread⟩ |
        ⟨hcreated, hreplayed, hread, hcommit⟩⟩ := hx
      · rw [Book.reserve_found hnew hl, if_neg (not_not.mpr hhash)]
        exact ⟨.ok (.reservation hread hcreated hreplayed), rfl, tenants, hs⟩
      · obtain ⟨hnone, hfresh, tenants', hholds, -⟩ := hcommit _ s.tables rfl hs
        rw [Book.reserve_fresh hnew hnone hfresh]
        exact ⟨.ok (.reservation hread hcreated hreplayed), rfl, tenants', hholds⟩
  · rintro exc writes held ⟨x, hvalue, hx⟩
    cases x with
    | ok reservation => cases hvalue
    | error exc =>
      cases hvalue
      cases hx with
      | invalid hnew =>
        have hraise : b.reserve s.hashes s.tenantKeyProvider now uuid tenantId request contract =
            .error exc := by
          unfold Book.reserve
          rw [hnew]
          rfl
        rw [hraise]
        exact .raised hs exc
      | conflict hnew hl hhash =>
        rw [Book.reserve_found hnew hl, if_pos hhash]
        exact .raised hs _
      | effectId hnew htaken =>
        rw [hfree _ hnew] at htaken
        cases htaken
      | unreadable hnew hread =>
        obtain ⟨read, hok⟩ := (hfit _ hnew).2
        rw [hok] at hread
        cases hread

theorem follows_claimDue (hs : s.tables.Holds s.jsonb ⟨tenants, b, []⟩) {now : Datetime} {uuid : Str}
    {workerId : Str} {now' : Datetime} {leaseFor : Timedelta} {limit : Int}
    (hfit : limit ≤ 0 ∨ now'.add leaseFor = none ∨
      ∀ l ∈ Book.picks b.queue now' limit, ∀ lease ∈ l.lease, lease.expiresAt ≠ now') :
    PostgresFollows s (s.serve ⟨.claimDue workerId now' leaseFor limit, now, uuid⟩).2
      (s.serve ⟨.claimDue workerId now' leaseFor limit, now, uuid⟩).1
      (b.serve s.hashes s.tenantKeyProvider ⟨.claimDue workerId now' leaseFor limit, now, uuid⟩) := by
  have hserve : b.serve s.hashes s.tenantKeyProvider ⟨.claimDue workerId now' leaseFor limit, now, uuid⟩ =
      b.outcome .effects (b.claimDue b.queue workerId now' leaseFor limit) := rfl
  rw [hserve]
  refine PostgresStore.serve_ends (P := fun out => PostgresFollows s out.2 out.1 _) hs trivial ?_ ?_
  · rintro value writes held ⟨x, hvalue, hx⟩
    cases x with
    | error exc => cases hvalue
    | ok records =>
      cases hvalue
      unfold Book.claimDue
      rcases hx with ⟨hlimit, rfl, rfl⟩ |
        ⟨leaseUntil, a₁, passed, locked, hlimit, hadd, rfl, henv, -, -, hrecords, -, -, hcommit⟩
      · rw [if_pos hlimit]
        exact ⟨.ok (.effects .nil), rfl, tenants, hs⟩
      · have hskip : (fun e => passed e || locked (.row e)) = fun _ => false := by
          funext e
          rw [henv.1, henv.2]
          rfl
        have hpicks : b.queue.picksOverdue (fun _ => false) now' limit = b.queue.picks now' limit := by
          refine (Book.picksOverdue_eq_iff b.queue now' limit).mpr ?_
          rcases hfit with hle | hnone | hfit
          · omega
          · rw [hadd] at hnone
            cases hnone
          · exact hfit
        rw [hskip, hpicks] at hrecords hcommit
        rw [if_neg (by omega), hadd]
        refine ⟨.ok (.effects ?_), rfl, tenants, hcommit _ s.tables rfl hs⟩
        exact List.forall₂_map_left_iff.mpr hrecords
  · rintro exc writes held ⟨x, hvalue, hx⟩
    cases x with
    | ok records => cases hvalue
    | error exc =>
      cases hvalue
      obtain ⟨rfl, hlimit, hadd⟩ := hx
      unfold Book.claimDue
      rw [if_neg (by omega), hadd]
      exact .raised hs _

/-- An operation of the book, alone. -/
theorem follows_does {α β : Type} (hs : s.tables.Holds s.jsonb ⟨tenants, b, []⟩) (hwf : c.WellFormed)
    {reply : α → StoreValue} {reply' : β → StoreValue} {R : α → β → Prop}
    {op : Book → Except Exc (β × Book)} {Own : Exc → PostgresBook → Prop}
    (hends : ∀ result writes held, CallEnds (solitary s.jsonb s.tables) (s.hashes, s.tenantKeyProvider)
        c ⟨tenants, b, []⟩ result writes held ⟨tenants, b, []⟩ →
      Replies reply (Does (solitary s.jsonb s.tables) R op Own) result writes held ⟨tenants, b, []⟩)
    (hreply : ∀ x y, R x y → JsonbReply s.jsonb (reply x) (reply' y))
    (hown : ∀ exc, ¬Own exc ⟨tenants, b, []⟩) :
    PostgresFollows s (s.serve c).2 (s.serve c).1 (b.outcome reply' (op b)) := by
  refine PostgresStore.serve_ends (P := fun out => PostgresFollows s out.2 out.1 _) hs hwf ?_ ?_
  · intro value writes held h
    obtain ⟨x, hvalue, hx⟩ := hends _ _ _ h
    cases x with
    | error exc => cases hvalue
    | ok x =>
      cases hvalue
      obtain ⟨y, b', hop, hR, hholds, -⟩ := hx _ s.tables rfl hs
      rw [hop]
      exact ⟨.ok (hreply x y hR), rfl, tenants, hholds⟩
  · intro exc writes held h
    obtain ⟨x, hvalue, hx⟩ := hends _ _ _ h
    cases x with
    | ok x => cases hvalue
    | error exc =>
      cases hvalue
      rw [hx.resolve_right (hown exc)]
      exact .raised hs exc

/-- A query, alone. -/
theorem follows_query_alone (hs : s.tables.Holds s.jsonb ⟨tenants, b, []⟩) (hwf : c.WellFormed)
    {reply' : StoreValue}
    (hends : ∀ result writes held, CallEnds (solitary s.jsonb s.tables) (s.hashes, s.tenantKeyProvider)
        c ⟨tenants, b, []⟩ result writes held ⟨tenants, b, []⟩ →
      Queries s.jsonb c.call result writes held ⟨tenants, b, []⟩)
    (hreply : ∀ value, Answers s.jsonb b c.call value → JsonbReply s.jsonb value reply')
    (hraises : ∀ exc, ¬QueryRaises c.call exc) :
    PostgresFollows s (s.serve c).2 (s.serve c).1 (.ok reply', b) := by
  refine PostgresStore.serve_ends (P := fun out => PostgresFollows s out.2 out.1 _) hs hwf ?_ ?_
  · intro value writes held h
    obtain ⟨rfl, -, hanswers⟩ := hends _ _ _ h
    exact ⟨.ok (hreply value hanswers), rfl, tenants, hs⟩
  · intro exc writes held h
    obtain ⟨-, -, hraise⟩ := hends _ _ _ h
    exact absurd hraise (hraises exc)

/-- A move that fits raises what the book raises, and nothing else. -/
theorem not_moveRaises (hs : s.tables.Holds s.jsonb ⟨tenants, b, []⟩) {now : Datetime} {uuid e : Str}
    {expectedVersion : Int} {target : EffectStatus} {data : Items}
    (hfit : s.Fits ⟨.transition e expectedVersion target data, now, uuid⟩) (exc : Exc) :
    ¬MoveRaises (solitary s.jsonb s.tables).holds uuid e expectedVersion target data exc
      ⟨tenants, b, []⟩ := by
  obtain ⟨hwf, hstorable, hfree⟩ := hfit
  intro hraises
  cases hraises with
  | stale hmem hbefore hversion hfound hchanged =>
    -- nobody has moved the effect since it was read
    obtain rfl := List.mem_singleton.mp hmem
    rw [hbefore] at hfound
    cases hfound
    exact hchanged hversion
  | unstorable hitems hjson =>
    have hok : ∀ items, (Value.dict items).WellFormed → Storable (.dict items) →
        jsonValue (.dict items) ≠ .error exc := by
      intro items hwf hstorable hraise
      rw [(jsonValue_eq_ok hwf).mpr ⟨hstorable, rfl⟩] at hraise
      cases hraise
    rcases hitems with rfl | ⟨source, rfl⟩
    · exact hok _ hwf hstorable hjson
    · exact hok _ (wellFormed_transition _ _ hwf) (storable_transition _ _ hstorable) hjson
  | receiptId htarget hholds hmem hid =>
    obtain ⟨rfl, -⟩ := hholds
    exact hfree htarget _ hmem hid

/-- **The Postgres store, alone, does what the book does**, for a call that fits. -/
theorem PostgresStore.serve_follows_book (hs : s.tables.Holds s.jsonb ⟨tenants, b, []⟩)
    (hfit : s.Fits c) :
    PostgresFollows s (s.serve c).2 (s.serve c).1 (b.serve s.hashes s.tenantKeyProvider c) := by
  have hwf := hfit.1
  obtain ⟨call, now, uuid⟩ := c
  cases call with
  | reserve tenantId request contract => exact follows_reserve hs hfit
  | claimDue workerId now' leaseFor limit =>
    refine follows_claimDue hs (.inr (.inr fun l hl lease hlease hends => ?_))
    have hrow := hs.mem_intents (Book.mem_queue.mp (Book.mem_picks hl).1)
    refine hfit.2 _ hrow ?_
    show l.lease.map Lease.expiresAt = some now'
    rw [hlease, Option.map_some, hends]
  | startAttempt e expectedVersion workerId =>
    refine follows_does hs hwf (fun _ _ _ h => h) ?_ fun _ h => h
    rintro x y rfl
    exact .attemptId
  | transition e expectedVersion target data =>
    exact follows_does hs hwf (fun _ _ _ h => h) (fun x y hread => .effect hread)
      (not_moveRaises hs hfit)
  | get tenantId e =>
    refine follows_query_alone hs hwf (fun _ _ _ h => h) ?_ fun exc h => h
    rintro value ⟨found, rfl, hfound⟩
    exact .found hfound
  | list tenantId status limit offset =>
    refine follows_query_alone hs hwf (fun _ _ _ h => h) ?_ ?_
    · rintro value ⟨-, -, records, rfl, hrecords⟩
      exact .effects hrecords
    · obtain ⟨-, hlimit, hoffset⟩ := hfit
      rintro exc (⟨hnegative, -⟩ | ⟨-, hnegative, -⟩)
      · omega
      · omega
  | receipt tenantId e =>
    refine follows_query_alone hs hwf (fun _ _ _ h => h) ?_ fun exc h => h
    rintro value rfl
    exact .receipt
  | events e =>
    refine follows_query_alone hs hwf (fun _ _ _ h => h) ?_ fun exc h => h
    rintro value rfl
    exact .events
  | attemptCount e =>
    refine follows_query_alone hs hwf (fun _ _ _ h => h) ?_ fun exc h => h
    rintro value rfl
    exact .number
  | count =>
    refine follows_query_alone hs hwf (fun _ _ _ h => h) ?_ fun exc h => h
    rintro value rfl
    exact .number

end

/-! ## Runs -/

/-- An empty database. -/
def PostgresStore.initial (hashes : Hashes) (tenantKeyProvider : TenantKeyProvider) (jsonb : Jsonb) :
    PostgresStore := ⟨hashes, tenantKeyProvider, jsonb, .empty⟩

section
variable {hashes : Hashes} {tenantKeyProvider : TenantKeyProvider} {jsonb : Jsonb} {s : PostgresStore}
  {log : List (Served PostgresStore)}

/-- **Sequential runs of the Postgres store are runs of the book**: call by call it replies
what is read of the book's replies, raises what the book raises, and holds the book. -/
theorem postgres_follows_book
    (h : StoreRun PostgresStore.serve (.initial hashes tenantKeyProvider jsonb) log s)
    (hcalls : EachCall PostgresStore.Fits (.initial hashes tenantKeyProvider jsonb) log) :
    ∃ (served : List (Served Book)) (b : Book) (tenants : List Str),
      StoreRun (fun c b => Book.serve b hashes tenantKeyProvider c) [] served b ∧
      List.Forall₂ (fun x y => y.call = x.call ∧ Agrees True (JsonbReply jsonb) x.reply y.reply)
        log served ∧ s.tables.Holds jsonb ⟨tenants, b, []⟩ := by
  suffices hrun : ∃ (served : List (Served Book)) (b : Book) (tenants : List Str),
      StoreRun (fun c b => Book.serve b hashes tenantKeyProvider c) [] served b ∧
      List.Forall₂ (fun x y => y.call = x.call ∧ Agrees True (JsonbReply jsonb) x.reply y.reply)
        log served ∧ s.tables.Holds jsonb ⟨tenants, b, []⟩ ∧
      (s.hashes, s.tenantKeyProvider, s.jsonb) = (hashes, tenantKeyProvider, jsonb) by
    obtain ⟨served, b, tenants, hbook, hreplies, hholds, -⟩ := hrun
    exact ⟨served, b, tenants, hbook, hreplies, hholds⟩
  induction h with
  | start => exact ⟨[], [], [], .start, .nil, PostgresTables.holds_empty jsonb, rfl⟩
  | @call log s c hrun ih =>
    obtain ⟨hfit, hcalls⟩ := hcalls
    rw [hrun.storeAfter] at hfit
    obtain ⟨served, b, tenants, hbook, hreplies, hholds, hsecrets⟩ := ih hcalls
    obtain ⟨rfl, hrest⟩ := Prod.mk.inj hsecrets
    obtain ⟨rfl, rfl⟩ := Prod.mk.inj hrest
    obtain ⟨hreply, hsame, tenants', hholds'⟩ := s.serve_follows_book hholds hfit
    exact ⟨_, _, tenants', hbook.call c, .cons ⟨rfl, hreply⟩ hreplies, hholds', hsame⟩

/-- An empty database, for the sample operation. -/
def sampleDatabase : PostgresStore := .initial sampleHashes sampleKeys id

/-- The database with the sample operation. -/
@[irreducible]
def sampleReserved : PostgresStore := (sampleDatabase.serve (reserveSample (str "1")).1).2

theorem forall_ok_of_all {ε α : Type} {x : Except ε α} {p : α → Bool}
    (h : x.toOption.all p = true) (a : α) (ha : x = .ok a) : p a = true := by
  subst ha
  exact h

theorem reserveSample_fits : sampleDatabase.Fits (reserveSample (str "1")).1 := by
  refine ⟨(reserveSample (str "1")).2, fun record hnew => ?_⟩
  have hall : (newRecord sampleHashes sampleKeys (sampleTime 0) (str "1") sampleTenant sampleRequest
      (sampleContract .idempotent 0)).toOption.all (fun record =>
        !sampleDatabase.tables.hasIntent record.effectId && (Jsonb.read id record).isOk) = true := by
    decide +kernel
  have hfit := forall_ok_of_all hall _ hnew
  rw [Bool.and_eq_true, Bool.not_eq_true'] at hfit
  exact ⟨hfit.1, exists_of_isOk hfit.2⟩

theorem leaseSample_fits : sampleReserved.Fits (leaseSample 0).1 := by
  have hrows : ∀ row ∈ sampleReserved.tables.intents, row.leaseUntil ≠ some (sampleTime 0) := by
    decide +kernel
  exact ⟨trivial, hrows⟩

/-- The sample operation is reserved, and claimed. -/
theorem postgres_follows_book_sample : ∃ log s,
    StoreRun PostgresStore.serve (.initial sampleHashes sampleKeys id) log s ∧ log.length = 2 ∧
    ∃ (served : List (Served Book)) (b : Book) (tenants : List Str),
      StoreRun (fun c b => Book.serve b sampleHashes sampleKeys c) [] served b ∧
      List.Forall₂ (fun x y => y.call = x.call ∧ Agrees True (JsonbReply id) x.reply y.reply)
        log served ∧ s.tables.Holds id ⟨tenants, b, []⟩ := by
  have hreserved : (sampleDatabase.serve (reserveSample (str "1")).1).2 = sampleReserved := by
    unfold sampleReserved
    rfl
  have hfirst : StoreRun PostgresStore.serve sampleDatabase _ _ :=
    .call (reserveSample (str "1")).1 .start
  rw [hreserved] at hfirst
  have hrun := hfirst.call (leaseSample 0).1
  generalize PostgresStore.serve (leaseSample 0).1 sampleReserved = claimed at hrun
  exact ⟨_, _, hrun, rfl, postgres_follows_book hrun ⟨leaseSample_fits, reserveSample_fits, trivial⟩⟩

end

/-! ## The instant at which a lease ends -/

section
variable {s : PostgresStore} {tenants : List Str} {b : Book} {now clock : Datetime} {uuid workerId : Str}
  {leaseFor : Timedelta} {limit : Int}

/-- A claim alone hands out the overdue effects. -/
theorem handedOut_claimDue (hs : s.tables.Holds s.jsonb ⟨tenants, b, []⟩) (hlimit : 0 < limit)
    {leaseUntil : Datetime} (hadd : now.add leaseFor = some leaseUntil) :
    handedOut (s.serve ⟨.claimDue workerId now leaseFor limit, clock, uuid⟩).1 =
      some ((b.queue.picksOverdue (fun _ => false) now limit).map
        fun l => (l.id, l.record.version + 1)) := by
  refine PostgresStore.serve_ends (P := fun out => handedOut out.1 = _) hs trivial ?_ ?_
  · rintro value writes held ⟨x, hvalue, hx⟩
    cases x with
    | error exc => cases hvalue
    | ok records =>
      cases hvalue
      rcases hx with ⟨hnonpos, -⟩ | ⟨leaseUntil', a₁, passed, locked, -, -, rfl, henv, -, -, hrecords, -⟩
      · omega
      · have hskip : (fun e => passed e || locked (.row e)) = fun _ => false := by
          funext e
          rw [henv.1, henv.2]
          rfl
        rw [hskip] at hrecords
        exact congrArg some (Jsonb.claimed_versions hrecords)
  · rintro exc writes held ⟨x, hvalue, hx⟩
    cases x with
    | ok records => cases hvalue
    | error exc =>
      obtain ⟨-, -, hnone⟩ := hx
      rw [hadd] at hnone
      cases hnone

/-- **Postgres claims what SQLite claims** from the same ledgers, and leaves the same ledgers,
if and only if no effect that SQLite claims has a lease that ends at the very instant of the
claim. -/
theorem claims_agree_iff (hs : s.tables.Holds s.jsonb ⟨tenants, b, []⟩) {q : SqliteStore}
    (hq : q.Holds (s.hashes, s.tenantKeyProvider) b)
    (hfit : EffectBroker.Fits (s.hashes, s.tenantKeyProvider) b
      ⟨.claimDue workerId now leaseFor limit, clock, uuid⟩)
    (hadd : 0 < limit → now.add leaseFor ≠ none) :
    let c : TimedCall := ⟨.claimDue workerId now leaseFor limit, clock, uuid⟩
    (handedOut (s.serve c).1 = handedOut (q.serve c).1 ∧
        ∃ tenants' b', (s.serve c).2.tables.Holds s.jsonb ⟨tenants', b', []⟩ ∧
          (q.serve c).2.Holds (s.hashes, s.tenantKeyProvider) b') ↔
      ∀ l ∈ Book.picks b.queue now limit, ∀ lease ∈ l.lease, lease.expiresAt ≠ now := by
  intro c
  have hbook : b.serve s.hashes s.tenantKeyProvider c =
      b.outcome .effects (b.claimDue b.queue workerId now leaseFor limit) := rfl
  obtain ⟨claimed, b', hresult, hclaimed⟩ : ∃ claimed b',
      b.claimDue b.queue workerId now leaseFor limit = .ok (claimed, b') ∧
      claimed.map (fun record => (record.effectId, record.version)) =
        (Book.picks b.queue now limit).map fun l => (l.id, l.record.version + 1) := by
    unfold Book.claimDue
    by_cases hlimit : limit ≤ 0
    · rw [if_pos hlimit, Book.picks_of_nonpos hlimit]
      exact ⟨_, _, rfl, rfl⟩
    · obtain ⟨leaseUntil, hadd⟩ := Option.ne_none_iff_exists'.mp (hadd (by omega))
      rw [if_neg hlimit, hadd]
      refine ⟨_, _, rfl, ?_⟩
      rw [List.map_map]
      rfl
  rw [hresult] at hbook
  -- SQLite does what the book does
  obtain ⟨hhanded, hholds⟩ : handedOut (q.serve c).1 =
      some (claimed.map fun record => (record.effectId, record.version)) ∧
      (q.serve c).2.Holds (s.hashes, s.tenantKeyProvider) b' := by
    have hfollows := serve_follows hq (c := c) trivial
    rw [hbook] at hfollows
    generalize q.serve c = out at hfollows
    cases hfollows with
    | ok hreads hholds =>
      cases hreads with
      | effects hreads => exact ⟨congrArg some (SqliteStore.map_of_reads hreads), hholds⟩
    | unfit hnot => exact absurd hfit hnot
  rw [hhanded]
  constructor
  · rintro ⟨hsame, -⟩ l hl
    have hlimit : 0 < limit := by
      by_contra hnot
      rw [Book.picks_of_nonpos (by omega)] at hl
      cases hl
    obtain ⟨leaseUntil, hadd⟩ := Option.ne_none_iff_exists'.mp (hadd hlimit)
    rw [handedOut_claimDue hs hlimit hadd, Option.some.injEq, hclaimed] at hsame
    have hmem : (l.id, l.record.version + 1) ∈ (Book.picks b.queue now limit).map
        fun l => (l.id, l.record.version + 1) := List.mem_map.mpr ⟨l, hl, rfl⟩
    rw [← hsame] at hmem
    obtain ⟨l', hl', hid⟩ := List.mem_map.mp hmem
    obtain ⟨hm', hoverdue⟩ := Book.mem_picksOverdue hl'
    obtain ⟨hm, hdue⟩ := Book.mem_picks hl
    obtain rfl : l' = l := List.inj_on_of_nodup_map hs.good.ids (Book.mem_queue.mp hm')
      (Book.mem_queue.mp hm) (Prod.mk.inj hid).1
    exact (EffectLedger.overdue_iff hdue).mp hoverdue
  · intro hends
    have hfollows : PostgresFollows s (s.serve c).2 (s.serve c).1
        (b.serve s.hashes s.tenantKeyProvider c) := follows_claimDue hs (.inr (.inr hends))
    rw [hbook] at hfollows
    obtain ⟨hreply, -, tenants', hholds'⟩ := hfollows
    refine ⟨?_, tenants', b', hholds', hholds⟩
    generalize (s.serve c).1 = reply at hreply
    cases hreply with
    | ok hread =>
      cases hread with
      | effects hreads => exact congrArg some (Jsonb.read_versions hreads)
    | unfit hnot => exact absurd trivial hnot

/-- What replies ok has been followed. -/
theorem Follows.holds {fit : Prop} {secrets : Secrets} {q : SqliteStore} {out out'}
    (h : Follows fit secrets q b out out') (hok : out.1.isOk = true) : out.2.Holds secrets out'.2 := by
  cases h with
  | ok _ hholds => exact hholds
  | error | unfit => cases hok

/-- Both stores hold one book. -/
structure HoldBook (s : PostgresStore) (q : SqliteStore) (b : Book) : Prop where
  postgres : ∃ tenants, s.tables.Holds s.jsonb ⟨tenants, b, []⟩
  sqlite : q.Holds (s.hashes, s.tenantKeyProvider) b

/-- A call that both serve. -/
theorem HoldBook.serve {q : SqliteStore} (h : HoldBook s q b) {c : TimedCall} (hfit : s.Fits c)
    (hok : (q.serve c).1.isOk = true) :
    HoldBook (s.serve c).2 (q.serve c).2 (b.serve s.hashes s.tenantKeyProvider c).2 := by
  obtain ⟨tenants, hs⟩ := h.postgres
  obtain ⟨-, hsame, tenants', hs'⟩ := s.serve_follows_book hs hfit
  obtain ⟨hhashes, hrest⟩ := Prod.mk.inj hsame
  obtain ⟨hkeys, hjsonb⟩ := Prod.mk.inj hrest
  refine ⟨⟨tenants', ?_⟩, ?_⟩
  · rw [hjsonb]
    exact hs'
  · rw [hhashes, hkeys]
    exact (serve_follows h.sqlite hfit.1).holds hok

/-- The sample operation, in SQLite. -/
@[irreducible]
def sampleLedger : SqliteStore :=
  ((SqliteStore.initial sampleHashes sampleKeys).serve (reserveSample (str "1")).1).2

/-- The book of the sample operation. -/
@[irreducible]
def sampleBook : Book := (Book.serve [] sampleHashes sampleKeys (reserveSample (str "1")).1).2

theorem holdBook_reserved : HoldBook sampleReserved sampleLedger sampleBook := by
  have hempty : HoldBook sampleDatabase (.initial sampleHashes sampleKeys) [] :=
    ⟨⟨[], PostgresTables.holds_empty id⟩, SqliteStore.holds_initial _ _⟩
  have hserved := hempty.serve reserveSample_fits (by decide +kernel)
  unfold sampleReserved sampleLedger sampleBook
  exact hserved

/-- At the very instant at which its lease ends, SQLite claims the sample effect, and Postgres
does not. -/
theorem claims_agree_iff_sample :
    let s := (sampleReserved.serve (leaseSample 0).1).2
    let q := (sampleLedger.serve (leaseSample 0).1).2
    let c := (leaseSample 1).1
    (∃ b, HoldBook s q b) ∧ ¬(handedOut (s.serve c).1 = handedOut (q.serve c).1 ∧
        ∃ tenants' b', (s.serve c).2.tables.Holds s.jsonb ⟨tenants', b', []⟩ ∧
          (q.serve c).2.Holds (s.hashes, s.tenantKeyProvider) b') := by
  have hserved := holdBook_reserved.serve leaseSample_fits (by decide +kernel)
  have hrows : ∀ l ∈ (sampleBook.serve sampleReserved.hashes sampleReserved.tenantKeyProvider
      (leaseSample 0).1).2, (sqliteRead l.record).isOk = true ∧ l.id = str "eff_1" ∧
        l.events.length + 1 < 2 ^ 63 ∧ l.attempts.length + 1 < 2 ^ 63 := by
    decide +kernel
  have hends : ∃ l ∈ Book.picks (sampleBook.serve sampleReserved.hashes
      sampleReserved.tenantKeyProvider (leaseSample 0).1).2.queue (sampleTime 1) 1,
        l.lease.map Lease.expiresAt = some (sampleTime 1) := by
    decide +kernel
  intro s q c
  generalize (sampleBook.serve sampleReserved.hashes sampleReserved.tenantKeyProvider
    (leaseSample 0).1).2 = b at hserved hrows hends
  refine ⟨⟨b, hserved⟩, ?_⟩
  obtain ⟨tenants, hs⟩ := hserved.postgres
  have hroomy : ∀ l ∈ b, l.Roomy := by
    intro l hl
    obtain ⟨hread, hid, hevents, hattempts⟩ := hrows l hl
    refine ⟨exists_of_isOk hread, ?_, hevents, hattempts⟩
    rw [hid]
    exact encodable_str _
  have hadd : (0 : Int) < 1 → (sampleTime 1).add oneDay ≠ none := by decide
  have hfit : EffectBroker.Fits (s.hashes, s.tenantKeyProvider) b c :=
    ⟨hroomy, fun _ => encodable_str _⟩
  intro hagree
  have hnone := (claims_agree_iff hs hserved.sqlite hfit hadd).mp hagree
  obtain ⟨l, hl, hlease⟩ := hends
  obtain ⟨lease, hsome, hat⟩ := Option.map_eq_some_iff.mp hlease
  exact hnone l hl lease hsome hat

end
end EffectBroker
