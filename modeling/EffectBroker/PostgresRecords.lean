import EffectBroker.Fingerprint
import EffectBroker.PostgresGuarantees

/-!
# What the Postgres tables tell

In every committed state the rows of an effect tell its story, and a receipt is there exactly
for a success.  Later states only add to it: what is settled stays, and so do receipts.  A
lease that nobody gives back is over before the next claim.
-/
namespace EffectBroker
open Python Concurrency Transactions

/-! ## Committed rows -/

/-- The rows of an effect are those of a ledger. -/
structure PostgresTables.RowsOf (jsonb : Jsonb) (s : PostgresTables) (row : IntentRow)
    (l : EffectLedger) : Prop where
  intent : row = jsonb.effectRow l
  attempts : s.attempts.filter (·.effectId = row.effectId) = l.attempts.map Attempt.row
  events : s.events.filter (·.effectId = row.effectId) = l.events.map jsonb.eventRow
  receipts : List.Forall₂ (ReceiptRow.Tells jsonb) (s.receipts.filter (·.effectId = row.effectId))
    l.success

section
variable {jsonb : Jsonb} {secrets : Secrets} {a : PostgresBook} {s : PostgresTables}

/-- Each row is that of a ledger of the book. -/
theorem PostgresTables.Holds.rowsOf (h : s.Holds jsonb a) {row : IntentRow} (hrow : row ∈ s.intents) :
    ∃ l ∈ a.book, s.RowsOf jsonb row l := by
  rw [h.intents] at hrow
  obtain ⟨l, hl, rfl⟩ := List.mem_map.mp hrow
  have hledger := h.good.ledger_of_mem hl
  refine ⟨l, hl, rfl, ?_, ?_, ?_⟩
  · have hrows := h.attempts l.id
    rw [Book.attemptsOf, hledger] at hrows
    exact hrows
  · have hrows := h.events l.id
    rw [Book.eventsOf, hledger] at hrows
    exact hrows
  · have hrows := h.receipts l.id
    rw [hledger] at hrows
    exact hrows

theorem PostgresTables.Holds.mem_intents (h : s.Holds jsonb a) {l : EffectLedger} (hl : l ∈ a.book) :
    jsonb.effectRow l ∈ s.intents := by
  rw [h.intents]
  exact List.mem_map_of_mem hl

/-- **The events tell the story**: in every committed state the events of an effect are
numbered without a gap, begin with its reservation, and lead, edge by edge, to the status and
the version of its row. -/
theorem events_tell_story {w : PostgresServer} (h : PostgresReachable jsonb secrets w) :
    ∀ row ∈ w.committed.intents, ∃ (events : List MemoryEvent) (status : EffectStatus),
      w.committed.events.filter (·.effectId = row.effectId) = events.map jsonb.eventRow ∧
      row.status = status.value ∧ TellStory events status row.version := by
  obtain ⟨a, -, hconsistent⟩ := postgres_consistent h
  have hholds := hconsistent.holds
  intro row hrow
  obtain ⟨l, hl, hrows⟩ := hholds.rowsOf hrow
  refine ⟨l.events, l.record.status, hrows.events, ?_, ?_⟩
  · rw [hrows.intent]
    rfl
  · rw [hrows.intent]
    exact (hholds.good.sound l hl).story

theorem events_tell_story_sample :
    let w := sampleServer successSample
    w.committed.intents.map IntentRow.version = [3] ∧
    ∀ row ∈ w.committed.intents, ∃ (events : List MemoryEvent) (status : EffectStatus),
      w.committed.events.filter (·.effectId = row.effectId) = events.map (Jsonb.eventRow id) ∧
      row.status = status.value ∧ TellStory events status row.version :=
  ⟨by decide +kernel, events_tell_story (sampleServer_reachable _)⟩

/-- **A receipt for each success**: an effect that has succeeded has one receipt, which says
what its last success says; any other effect has none. -/
theorem receipts_of_successes {w : PostgresServer} (h : PostgresReachable jsonb secrets w) :
    ∀ row ∈ w.committed.intents, ∃ events : List MemoryEvent,
      w.committed.events.filter (·.effectId = row.effectId) = events.map jsonb.eventRow ∧
      (row.status = EffectStatus.succeeded.value → ∃ receiptId metadata at_,
        InMemoryStore.lastSuccess events = some (metadata, at_) ∧
        w.committed.receipts.filter (·.effectId = row.effectId) = [{
          receiptId
          effectId := row.effectId
          externalId := (metadata.get? (str "external_id")).getD .none
          contractName := row.contractName
          contractVersion := row.contractVersion
          downstreamKey := row.downstreamKey
          metadataJson := jsonb.keep (.dict metadata)
          createdAt := at_ }]) ∧
      (row.status ≠ EffectStatus.succeeded.value →
        w.committed.receipts.filter (·.effectId = row.effectId) = []) := by
  obtain ⟨a, -, hconsistent⟩ := postgres_consistent h
  have hholds := hconsistent.holds
  intro row hrow
  obtain ⟨l, hl, hrows⟩ := hholds.rowsOf hrow
  have hreceipts := hrows.receipts
  have hstatus : row.status = EffectStatus.succeeded.value ↔ l.record.status = .succeeded := by
    rw [hrows.intent]
    exact EffectStatus.value_injective.eq_iff
  unfold EffectLedger.success at hreceipts
  refine ⟨l.events, hrows.events, fun hsucceeded => ?_, fun hnot => ?_⟩
  · rw [if_pos (hstatus.mp hsucceeded)] at hreceipts
    obtain ⟨receipt, rest, ⟨metadata, at_, hlast, hreceipt⟩, hrest, hfilter⟩ :=
      List.forall₂_cons_right_iff.mp hreceipts
    cases hrest
    refine ⟨receipt.receiptId, metadata, at_, hlast, hfilter.trans ?_⟩
    rw [hreceipt, hrows.intent]
    rfl
  · rw [if_neg fun h => hnot (hstatus.mpr h)] at hreceipts
    exact List.forall₂_nil_right_iff.mp hreceipts

theorem receipts_of_successes_sample :
    let w := sampleServer successSample
    w.committed.receipts.map (·.effectId) = [str "eff_1"] ∧
    ∀ row ∈ w.committed.intents, ∃ events : List MemoryEvent,
      w.committed.events.filter (·.effectId = row.effectId) = events.map (Jsonb.eventRow id) ∧
      (row.status = EffectStatus.succeeded.value → ∃ receiptId metadata at_,
        InMemoryStore.lastSuccess events = some (metadata, at_) ∧
        w.committed.receipts.filter (·.effectId = row.effectId) = [{
          receiptId
          effectId := row.effectId
          externalId := (metadata.get? (str "external_id")).getD .none
          contractName := row.contractName
          contractVersion := row.contractVersion
          downstreamKey := row.downstreamKey
          metadataJson := Jsonb.keep id (.dict metadata)
          createdAt := at_ }]) ∧
      (row.status ≠ EffectStatus.succeeded.value →
        w.committed.receipts.filter (·.effectId = row.effectId) = []) :=
  ⟨by decide +kernel, receipts_of_successes (sampleServer_reachable _)⟩

/-! ## Later states -/

theorem Serial.history_later {newer : List (Commit PostgresTask StoreValue)} {a' : PostgresBook}
    (h : Serial (callContract jsonb secrets).step a newer a') (ha : a.History) :
    a'.History ∧ a.book.Earlier a'.book := by
  induction h with
  | start => exact ⟨ha, .refl _⟩
  | commit _ hs ih =>
    obtain ⟨hhistory, hearlier⟩ := ih
    have hunique := hhistory.book.toUnique
    exact ⟨hhistory.step hs.1 (CallStep.step hs hunique), hearlier.trans (CallStep.earlier hs hunique)⟩

/-- **What is settled stays**: every later state has the row of an effect that has reached a
terminal status, and all events, attempts and receipts as they were. -/
theorem settled_rows_stay {w w' : PostgresServer} (h : PostgresReachable jsonb secrets w)
    (h' : ReachableFrom (postgres jsonb) (postgresProgram secrets) w w') :
    (∀ row ∈ w.committed.intents, ∀ status, row.status = EffectStatus.value status →
      isTerminal status = true → row ∈ w'.committed.intents) ∧
    w.committed.events <+: w'.committed.events ∧ w.committed.attempts <+: w'.committed.attempts ∧
      w.committed.receipts <+: w'.committed.receipts := by
  constructor
  · obtain ⟨a, newer, a', hserial, hholds, -, hnewer, hholds'⟩ := postgres_later h h'
    obtain ⟨-, hearlier⟩ := Serial.history_later hnewer (SerialCalls.history hserial)
    intro row hrow status hstatus hterminal
    obtain ⟨l, hl, hrows⟩ := hholds.rowsOf hrow
    obtain ⟨l', hl', hgrows⟩ := hearlier l.id l (hholds.good.ledger_of_mem hl)
    rw [hrows.intent] at hstatus
    obtain rfl := EffectStatus.value_injective hstatus
    obtain ⟨hrecord, hlease, -⟩ := hgrows.settled hterminal
    have hsame : jsonb.effectRow l' = jsonb.effectRow l := by
      unfold Jsonb.effectRow
      rw [hrecord, hlease]
    rw [hrows.intent, ← hsame]
    exact hholds'.mem_intents (Book.mem_of_ledger hl').1
  · refine h'.committed (R := fun s s' => s.events <+: s'.events ∧ s.attempts <+: s'.attempts ∧
      s.receipts <+: s'.receipts) (fun s => ⟨List.prefix_rfl, List.prefix_rfl, List.prefix_rfl⟩) ?_ ?_
    · rintro s₁ s₂ s₃ ⟨hevents, hattempts, hreceipts⟩ ⟨hevents', hattempts', hreceipts'⟩
      exact ⟨hevents.trans hevents', hattempts.trans hattempts', hreceipts.trans hreceipts'⟩
    · intro s write
      cases write with
      | attempt row => exact ⟨List.prefix_rfl, List.prefix_append _ _, List.prefix_rfl⟩
      | receipt row => exact ⟨List.prefix_rfl, List.prefix_rfl, List.prefix_append _ _⟩
      | event row => exact ⟨List.prefix_append _ _, List.prefix_rfl, List.prefix_rfl⟩
      | tenant | intent | update => exact ⟨List.prefix_rfl, List.prefix_rfl, List.prefix_rfl⟩

/-- The sample effect is attempted again after its success. -/
theorem settled_rows_stay_sample :
    let w := sampleServer successSample
    let w' := w.after (postgres id) (postgresProgram (sampleHashes, sampleKeys))
      (uninterrupted 5 (attemptSample 3) 5)
    w'.committed.attempts.length = 2 ∧
    (∀ row ∈ w.committed.intents, ∀ status, row.status = EffectStatus.value status →
      isTerminal status = true → row ∈ w'.committed.intents) ∧
    w.committed.events <+: w'.committed.events ∧ w.committed.attempts <+: w'.committed.attempts ∧
      w.committed.receipts <+: w'.committed.receipts :=
  ⟨by decide +kernel, settled_rows_stay (sampleServer_reachable _) (reachableFrom_after _ _ _ _)⟩

/-! ## Receipts that callers have seen -/

/-- The receipt that a committed call has found, with the tenant and the effect of the call. -/
def foundReceipt (entry : Commit PostgresTask StoreValue) : List ((Str × Str) × Items) :=
  match entry.task.1.call, entry.value with
  | .receipt tenantId e, .receipt (some receipt) => [((tenantId, e), receipt)]
  | _, _ => []

/-- The receipt is the one of the effect, which has succeeded and is the tenant's own. -/
def ShowsReceipt (jsonb : Jsonb) (a : PostgresBook) (x : (Str × Str) × Items) : Prop :=
  ∃ l, a.book.ledger x.1.2 = some l ∧ l.record.tenantId = x.1.1 ∧ l.record.status = .succeeded ∧
    jsonb.readReceipt l = some x.2

theorem ShowsReceipt.later {x : (Str × Str) × Items} {a' : PostgresBook} (h : ShowsReceipt jsonb a x)
    (hearlier : a.book.Earlier a'.book) : ShowsReceipt jsonb a' x := by
  obtain ⟨l, hl, htenant, hstatus, hreceipt⟩ := h
  obtain ⟨l', hl', hgrows⟩ := hearlier _ l hl
  obtain ⟨hrecord, -, hlast⟩ := hgrows.settled (by rw [hstatus]; rfl)
  refine ⟨l', hl', ?_, ?_, ?_⟩
  · rw [hrecord]
    exact htenant
  · rw [hrecord]
    exact hstatus
  · unfold Jsonb.readReceipt at hreceipt ⊢
    rw [hrecord, hlast]
    exact hreceipt

/-- A receipt that is found is that of an effect which has succeeded. -/
theorem showsReceipt_new {task : PostgresTask} {since : Nat} {value : StoreValue} {a' : PostgresBook}
    (ha : a.History) (h : CallStep jsonb secrets task.1 since value a a') :
    ∀ x ∈ foundReceipt ⟨task, since, value⟩, ShowsReceipt jsonb a' x := by
  obtain ⟨⟨call, now, uuid⟩, hwf⟩ := task
  cases call with
  | receipt tenantId e =>
    obtain ⟨-, hbook, b, hb, rfl⟩ := h
    intro x hx
    cases howned : b.ofTenant tenantId e with
    | none =>
      rw [howned] at hx
      cases hx
    | some l =>
      rw [howned] at hx
      cases hreceipt : jsonb.readReceipt l with
      | none =>
        simp only [Option.bind_some, hreceipt] at hx
        cases hx
      | some receipt =>
        simp only [Option.bind_some, hreceipt] at hx
        obtain rfl := List.mem_singleton.mp hx
        obtain ⟨hl, htenant⟩ := Option.filter_eq_some_iff.mp howned
        have hlast : (InMemoryStore.lastSuccess l.events).isSome := by
          unfold Jsonb.readReceipt at hreceipt
          obtain ⟨last, hlast, -⟩ := Option.map_eq_some_iff.mp hreceipt
          rw [hlast]
          rfl
        have hb := PostgresBook.mem_timeline hb
        have hevident := ha.evident b hb l (Book.mem_of_ledger hl).1
        have hshown : ShowsReceipt jsonb ⟨[], b, []⟩ ((tenantId, e), receipt) :=
          ⟨l, hl, of_decide_eq_true htenant, hevident.mp hlast, hreceipt⟩
        refine hshown.later ?_
        rw [hbook]
        exact ha.earlier b hb
  | reserve | claimDue | startAttempt | transition | get | list | events | attemptCount | count =>
    cases value <;> exact List.forall_mem_nil _

/-- **Receipts agree**: all receipts of an effect that are ever found, by whichever process,
are the same, and are found by the same tenant. -/
theorem receipts_agree {w : PostgresServer} (h : PostgresReachable jsonb secrets w) :
    ∀ x ∈ w.log.flatMap foundReceipt, ∀ y ∈ w.log.flatMap foundReceipt, x.1.2 = y.1.2 → x = y := by
  obtain ⟨a, hserial, -⟩ := postgres_consistent h
  have hshown : ∀ x ∈ w.log.flatMap foundReceipt, ShowsReceipt jsonb a x := by
    refine Serial.lasting (I := PostgresBook.History) hserial PostgresBook.history_empty
      (fun hb hs => hb.step hs.1 (CallStep.step hs hb.book.toUnique)) ?_ ?_
    · intro entry b b' x hb hs hx
      exact hx.later (CallStep.earlier hs hb.book.toUnique)
    · intro entry b b' hb hs
      exact showsReceipt_new hb hs
  intro x hx y hy hsame
  obtain ⟨l, hl, htenant, -, hreceipt⟩ := hshown x hx
  obtain ⟨l', hl', htenant', -, hreceipt'⟩ := hshown y hy
  rw [← hsame, hl] at hl'
  cases hl'
  rw [hreceipt] at hreceipt'
  exact Prod.ext (Prod.ext (htenant.symm.trans htenant') hsame) (Option.some.inj hreceipt')

theorem receipts_agree_sample :
    let w := sampleServer (successSample ++ uninterrupted 5 receiptSample 1 ++
      uninterrupted 6 receiptSample 1)
    (w.log.flatMap foundReceipt).length = 2 ∧
    ∀ x ∈ w.log.flatMap foundReceipt, ∀ y ∈ w.log.flatMap foundReceipt, x.1.2 = y.1.2 → x = y :=
  ⟨by decide +kernel, receipts_agree (sampleServer_reachable _)⟩

/-! ## Leases -/

/-- The leases that a committed call hands out: the effect, when it was claimed, and when the
lease ends. -/
def leasesOf (entry : Commit PostgresTask StoreValue) : List (Str × Datetime × Datetime) :=
  match entry.task.1.call, entry.value with
  | .claimDue _ now leaseFor _, .effects records =>
    (now.add leaseFor).toList.flatMap fun expiresAt => records.map fun r => (r.effectId, now, expiresAt)
  | _, _ => []

/-- What is claimed was overdue, and has the lease of the claim. -/
theorem CallStep.leased {task : PostgresTask} {since : Nat} {value : StoreValue} {a' : PostgresBook}
    (h : CallStep jsonb secrets task.1 since value a a') {e : Str} {now expiresAt : Datetime}
    (hlease : (e, now, expiresAt) ∈ leasesOf ⟨task, since, value⟩) :
    ∃ l l', a.book.ledger e = some l ∧ l.overdue now = true ∧ a'.book.ledger e = some l' ∧
      l'.lease.map Lease.expiresAt = some expiresAt := by
  obtain ⟨⟨call, clock, uuid⟩, hwf⟩ := task
  cases call with
  | claimDue workerId now' leaseFor limit =>
    obtain ⟨-, records, rfl, ⟨-, rfl, -⟩ |
      ⟨leaseUntil, skip, b, hb, -, hadd, hrecords, hpicked, hbook⟩⟩ := h
    · unfold leasesOf at hlease
      obtain ⟨expiresAt, -, hmem⟩ := List.mem_flatMap.mp hlease
      cases hmem
    · unfold leasesOf at hlease
      simp only [hadd, Option.toList_some, List.flatMap_singleton] at hlease
      obtain ⟨record, hrecord, hsame⟩ := List.mem_map.mp hlease
      obtain ⟨he, hnow⟩ := Prod.mk.inj hsame
      obtain ⟨rfl, rfl⟩ := Prod.mk.inj hnow
      have hpair : (record.effectId, record.version) ∈
          (Book.picksOverdue b.queue skip now' limit).map fun l => (l.id, l.record.version + 1) := by
        rw [← Jsonb.claimed_versions hrecords]
        exact List.mem_map_of_mem hrecord
      obtain ⟨l, hl, hid⟩ := List.mem_map.mp hpair
      obtain rfl : l.id = e := (Prod.mk.inj hid).1.trans he
      refine ⟨l, l.claimed workerId now' leaseUntil, hpicked l hl, (Book.mem_picksOverdue hl).2, ?_, rfl⟩
      rw [hbook, Book.claimAll_ledger, hpicked l hl, Option.map_some, if_pos (List.mem_map_of_mem hl)]
  | reserve | startAttempt | transition | get | list | receipt | events | attemptCount | count =>
    cases value <;> cases hlease

/-- A call that hands out no version of an effect leaves its lease. -/
theorem CallStep.lease_kept {task : PostgresTask} {since : Nat} {value : StoreValue} {a' : PostgresBook}
    (h : CallStep jsonb secrets task.1 since value a a') {e : Str} {l : EffectLedger}
    (hl : a.book.ledger e = some l) (hnone : ∀ x ∈ versionsOf ⟨task, since, value⟩, x.1 ≠ e) :
    ∃ l', a'.book.ledger e = some l' ∧ l'.lease = l.lease := by
  obtain ⟨⟨call, now, uuid⟩, hwf⟩ := task
  obtain ⟨-, h⟩ := h
  cases call with
  | reserve tenantId request contract =>
    obtain ⟨reservation, y, -, hreserve, -⟩ := h
    obtain ⟨record, -, ⟨found, -, -, -, hsame⟩ | ⟨-, -, -, hbook⟩⟩ := Book.reserve_ok hreserve
    · rw [hsame]
      exact ⟨l, hl, rfl⟩
    · refine ⟨l, ?_, rfl⟩
      rw [hbook, Book.ledger_append, hl]
      rfl
  | claimDue workerId now' leaseFor limit =>
    obtain ⟨records, rfl, ⟨-, -, hsame⟩ | ⟨leaseUntil, skip, b, -, -, -, hrecords, -, hbook⟩⟩ := h
    · rw [hsame]
      exact ⟨l, hl, rfl⟩
    · refine ⟨l, ?_, rfl⟩
      rw [hbook, Book.claimAll_ledger, hl, Option.map_some, if_neg fun hmem => ?_]
      obtain ⟨picked, hpicked, hid⟩ := List.mem_map.mp hmem
      have hversion : (picked.id, picked.record.version + 1) ∈ versionsOf
          ⟨⟨⟨.claimDue workerId now' leaseFor limit, now, uuid⟩, hwf⟩, since, .effects records⟩ := by
        show _ ∈ records.map fun r => (r.effectId, r.version)
        rw [Jsonb.claimed_versions hrecords]
        exact List.mem_map.mpr ⟨picked, hpicked, rfl⟩
      exact hnone _ hversion (hid.trans (Book.mem_of_ledger hl).2)
  | startAttempt e' expectedVersion workerId =>
    obtain ⟨attemptId, -, hstart⟩ := h
    obtain ⟨found, hfound, -, -, hbook⟩ := Book.startAttempt_ok hstart
    rw [hbook]
    by_cases he : e = e'
    · rw [he] at hl ⊢
      exact ⟨l.attempted workerId now, Book.ledger_modify_self (fun _ => rfl) hl, rfl⟩
    · exact ⟨l, (Book.ledger_modify_ne (f := (·.attempted workerId now)) (fun _ => rfl) he).trans hl, rfl⟩
  | transition e' expectedVersion target data =>
    obtain ⟨record, y, rfl, htransition, hread⟩ := h
    obtain ⟨found, hfound, -, -, rfl, hbook⟩ := Book.transition_ok htransition
    have hid : record.effectId = e' :=
      (Jsonb.read_version hread).1.trans (Book.mem_of_ledger hfound).2
    have he : e ≠ e' := by
      intro he
      exact hnone (record.effectId, record.version) (List.mem_singleton.mpr rfl) (hid.trans he.symm)
    rw [hbook]
    exact ⟨l, (Book.ledger_modify_ne (f := (·.moved target now data)) (fun _ => rfl) he).trans hl, rfl⟩
  | get | list | receipt | events | attemptCount | count =>
    rw [h.1]
    exact ⟨l, hl, rfl⟩

theorem Serial.lease_kept {log : List (Commit PostgresTask StoreValue)} {a' : PostgresBook} {e : Str}
    {l : EffectLedger} (h : Serial (callContract jsonb secrets).step a log a')
    (hl : a.book.ledger e = some l) (hnone : ∀ entry ∈ log, ∀ x ∈ versionsOf entry, x.1 ≠ e) :
    ∃ l', a'.book.ledger e = some l' ∧ l'.lease = l.lease := by
  induction h with
  | start => exact ⟨l, hl, rfl⟩
  | commit _ hs ih =>
    obtain ⟨hfirst, hrest⟩ := List.forall_mem_cons.mp hnone
    obtain ⟨l', hl', hlease⟩ := ih hrest
    obtain ⟨l'', hl'', hlease'⟩ := CallStep.lease_kept hs hl' hfirst
    exact ⟨l'', hl'', hlease'.trans hlease⟩

/-- **Leases exclude**: unless the effect has been moved in between, the lease of one claim is
over, by the clock of the next claim, before the next one. -/
theorem leases_exclude {w : PostgresServer} (h : PostgresReachable jsonb secrets w)
    {newest mid oldest : List (Commit PostgresTask StoreValue)}
    {first second : Commit PostgresTask StoreValue}
    (hlog : w.log = newest ++ second :: (mid ++ first :: oldest)) {e : Str}
    {now now' expiresAt expiresAt' : Datetime} (hfirst : (e, now, expiresAt) ∈ leasesOf first)
    (hsecond : (e, now', expiresAt') ∈ leasesOf second)
    (hmid : ∀ entry ∈ mid, ∀ x ∈ versionsOf entry, x.1 ≠ e) : expiresAt < now' := by
  obtain ⟨a, hserial, -⟩ := postgres_consistent h
  rw [hlog] at hserial
  obtain ⟨b, hserial, -⟩ := Serial.older hserial
  cases hserial with
  | commit hserial hsecondStep =>
    obtain ⟨c, hserial, hmidRun⟩ := Serial.older hserial
    cases hserial with
    | commit _ hfirstStep =>
      obtain ⟨-, l, -, -, hl, hlease⟩ := CallStep.leased hfirstStep hfirst
      obtain ⟨l', hl', hkept⟩ := Serial.lease_kept hmidRun hl hmid
      obtain ⟨before, -, hbefore, hoverdue, -, -⟩ := CallStep.leased hsecondStep hsecond
      rw [hl'] at hbefore
      cases hbefore
      rw [← hkept] at hlease
      obtain ⟨lease, hsome, rfl⟩ := Option.map_eq_some_iff.mp hlease
      unfold EffectLedger.overdue at hoverdue
      rw [hsome] at hoverdue
      exact of_decide_eq_true (Bool.and_eq_true_iff.mp hoverdue).2

/-- An effect is claimed for a day, and claimed again two days later. -/
theorem leases_exclude_sample :
    ∃ (w : PostgresServer) (first second between oldest : Commit PostgresTask StoreValue),
      PostgresReachable id (sampleHashes, sampleKeys) w ∧ w.log = [second, between, first, oldest] ∧
      (str "eff_1", sampleTime 0, sampleTime 1) ∈ leasesOf first ∧
      (str "eff_1", sampleTime 2, sampleTime 3) ∈ leasesOf second ∧ sampleTime 1 < sampleTime 2 := by
  let moves := uninterrupted 0 (reserveSample (str "1")) 4 ++ uninterrupted 1 (leaseSample 0) 4 ++
    uninterrupted 2 (attemptSample 1) 5 ++ uninterrupted 3 (leaseSample 2) 4
  have hlength : (sampleServer moves).log.length = 3 + 1 := by decide +kernel
  have hleases : (sampleServer moves).log.map leasesOf =
    [[(str "eff_1", sampleTime 2, sampleTime 3)], [], [(str "eff_1", sampleTime 0, sampleTime 1)], []] := by
    decide +kernel
  have hversions : (sampleServer moves).log.map versionsOf =
    [[(str "eff_1", 2)], [], [(str "eff_1", 1)], []] := by decide +kernel
  have hreachable := sampleServer_reachable moves
  generalize sampleServer moves = w at *
  obtain ⟨second, rest, hlog⟩ := List.exists_of_length_succ _ hlength
  rw [hlog, List.length_cons, Nat.add_right_cancel_iff] at hlength
  obtain ⟨between, first, oldest, rfl⟩ := List.length_eq_three.mp hlength
  rw [hlog] at hleases hversions
  simp only [List.map_cons, List.map_nil, List.cons.injEq, and_true] at hleases hversions
  obtain ⟨hsecond, -, hfirst, -⟩ := hleases
  have hfirst : (str "eff_1", sampleTime 0, sampleTime 1) ∈ leasesOf first := by
    rw [hfirst]
    exact List.mem_singleton_self _
  have hsecond : (str "eff_1", sampleTime 2, sampleTime 3) ∈ leasesOf second := by
    rw [hsecond]
    exact List.mem_singleton_self _
  have hmid : ∀ entry ∈ [between], ∀ x ∈ versionsOf entry, x.1 ≠ str "eff_1" := by
    rw [List.forall_mem_singleton, hversions.2.1]
    exact List.forall_mem_nil _
  have hsplit : w.log = [] ++ second :: ([between] ++ first :: [oldest]) := hlog
  exact ⟨w, first, second, between, oldest, hreachable, hlog, hfirst, hsecond,
    leases_exclude hreachable hsplit hfirst hsecond hmid⟩

end

/-! ## Constraints -/

/-- The exception is not about a constraint of a table. -/
def Unconstrained {α : Type} (x : Except Exc α) : Prop := ∀ c, x ≠ .error (violates c)

section
variable {α β : Type}

theorem Unconstrained.ok (value : α) : Unconstrained (.ok value : Except Exc α) := by
  intro c h
  cases h

theorem Unconstrained.bind {x : Except Exc α} {f : α → Except Exc β} (hx : Unconstrained x)
    (hf : ∀ value, Unconstrained (f value)) : Unconstrained (x >>= f) := by
  cases x with
  | ok value => exact hf value
  | error exc =>
    intro c h
    cases h
    exact hx c rfl

theorem unconstrained_canonicalJson (value : Value) : Unconstrained (canonicalJson value) := by
  intro c h
  unfold canonicalJson at h
  have hvalid := validate_raises (str "$") value
  cases hvalidate : validate (str "$") value with
  | error exc =>
    rw [hvalidate] at h hvalid
    obtain ⟨message, rfl⟩ := hvalid
    cases h
  | ok _ =>
    simp only [hvalidate] at h
    cases hdumps : dumps value with
    | none =>
      rw [hdumps] at h
      cases h
    | some text =>
      rw [hdumps] at h
      cases h

theorem unconstrained_encode (text : Str) : Unconstrained (encode text) := by
  intro c h
  unfold encode at h
  split at h
  · cases h
  · cases h

/-- A class name that is not the one of a violated constraint. -/
theorem other_ne_violates {name message : Str} (h : name ≠ str "IntegrityError")
    (c : PostgresConstraint) : Exc.other name message ≠ violates c := by
  intro hsame
  exact h (Exc.other.inj hsame).1

theorem unconstrained_jsonValue (value : Value) : Unconstrained (jsonValue value) := by
  refine (unconstrained_canonicalJson value).bind fun text c h => ?_
  split at h
  · cases h
  · exact other_ne_violates (by decide) c (Except.error.inj h)

theorem unconstrained_newRecord {secrets : Secrets} (now : Datetime) (uuid : Str) {tenantId : Str}
    (hkeys : Unconstrained (secrets.2 tenantId)) (request : EffectRequest) (contract : EffectContract) :
    Unconstrained (newRecord secrets.1 secrets.2 now uuid tenantId request contract) := by
  unfold newRecord requestHash downstreamKey
  refine Unconstrained.bind ?_ fun digest => hkeys.bind fun tenantKey => Unconstrained.bind ?_ fun key => .ok _
  · exact (unconstrained_canonicalJson _).bind fun canonical =>
      (unconstrained_encode canonical).bind fun bytes => .ok _
  · exact (unconstrained_encode _).bind fun message => .ok _

theorem unconstrained_secondsToDuration (value : Option Int) :
    Unconstrained (secondsToDuration value) := by
  intro c h
  cases value with
  | none => cases h
  | some seconds =>
    simp only [secondsToDuration] at h
    split at h
    · cases h
    · cases h

theorem unconstrained_toRecord (row : IntentRow) : Unconstrained row.toRecord := by
  unfold IntentRow.toRecord
  refine Unconstrained.bind ?_ fun arguments => Unconstrained.bind ?_ fun safety =>
    (unconstrained_secondsToDuration _).bind fun keyRetention =>
      (unconstrained_secondsToDuration _).bind fun settlementBound =>
        Unconstrained.bind ?_ fun status => .ok _
  · intro c h
    unfold dictOfJson at h
    split at h
    · cases h
    · cases h
  · intro c h
    unfold safetyOfText at h
    split at h
    · cases h
    · exact other_ne_violates (by decide) c (Except.error.inj h)
  · intro c h
    unfold statusOfText at h
    split at h
    · cases h
    · exact other_ne_violates (by decide) c (Except.error.inj h)

theorem Book.unconstrained_current (b : Book) (e : Str) (expectedVersion : Int) :
    Unconstrained (b.current e expectedVersion) := by
  intro c h
  unfold Book.current at h
  split at h
  · cases h
  · split at h
    · cases h
    · cases h

theorem unconstrained_assertTransition (source target : EffectStatus) :
    Unconstrained (assertTransition source target) := by
  intro c h
  unfold assertTransition at h
  split at h
  · cases h
  · cases h

end

section
variable {jsonb : Jsonb} {secrets : Secrets}

/-- **Only new ids collide**: of all constraints, a transaction can only violate the primary
keys of effects and receipts, and only with an id that it has drawn itself.  The numbers of
attempts and events never collide, nor do receipts of one effect, and no row is missing. -/
theorem only_new_ids_collide {w : PostgresServer} (h : PostgresReachable jsonb secrets w)
    (hkeys : ∀ tenantId, Unconstrained (secrets.2 tenantId)) {t : Nat} {task : PostgresTask}
    {since : Nat} {c : PostgresConstraint} {writes : List PostgresWrite}
    (ht : w.transaction t = some ⟨task, since, .raised (violates c), writes⟩) :
    (c = .intentsPkey ∧ ∃ tenantId request contract, task.1.call = .reserve tenantId request contract) ∨
      (c = .receiptsPkey ∧ ∃ e expectedVersion data,
        task.1.call = .transition e expectedVersion .succeeded data) := by
  obtain ⟨a, -, hconsistent⟩ := postgres_consistent h
  obtain ⟨a₀, -, hraises⟩ := hconsistent.raised ht
  obtain ⟨⟨call, now, uuid⟩, hwf⟩ := task
  cases call with
  | reserve tenantId request contract =>
    left
    generalize hexc : violates c = exc at hraises
    cases hraises with
    | invalid hnew =>
      rw [← hexc] at hnew
      exact absurd hnew (unconstrained_newRecord now uuid (hkeys tenantId) request contract c)
    | conflict => cases hexc
    | effectId =>
      refine ⟨?_, _, _, _, rfl⟩
      cases c <;> first | rfl | exact absurd (Exc.other.inj hexc).2 (by decide)
    | unreadable _ hread =>
      rw [← hexc] at hread
      exact absurd hread (unconstrained_toRecord _ c)
  | claimDue workerId now' leaseFor limit => cases hraises.1
  | startAttempt e expectedVersion workerId =>
    have hstart : a₀.book.startAttempt now e expectedVersion workerId = .error (violates c) := hraises
    refine absurd hstart (Unconstrained.bind (Book.unconstrained_current _ _ _) (fun l => .ok _) c)
  | transition e expectedVersion target data =>
    right
    rcases hraises with hbook | hown
    · have hmove : a₀.book.transition now e expectedVersion target data = .error (violates c) := hbook
      exact absurd hmove (Unconstrained.bind (Book.unconstrained_current _ _ _) (fun l =>
        (unconstrained_assertTransition _ _).bind fun _ => .ok _) c)
    · generalize hexc : violates c = exc at hown
      cases hown with
      | stale => cases hexc
      | unstorable _ hjson =>
        rw [← hexc] at hjson
        exact absurd hjson (unconstrained_jsonValue _ c)
      | receiptId htarget =>
        obtain rfl : target = .succeeded := htarget
        refine ⟨?_, _, _, _, rfl⟩
        cases c <;> first | rfl | exact absurd (Exc.other.inj hexc).2 (by decide)
  | list tenantId status limit offset =>
    rcases hraises with ⟨-, hexc⟩ | ⟨-, -, hexc⟩
    · exact absurd hexc.symm (other_ne_violates (by decide) c)
    · exact absurd hexc.symm (other_ne_violates (by decide) c)
  | get | receipt | events | attemptCount | count => exact absurd hraises id

theorem otherRequest_wellFormed : otherRequest.arguments.WellFormed :=
  ⟨List.nodup_singleton _, trivial, trivial⟩

/-- Submit the other operation. -/
def reserveOther (uuid : Str) : PostgresTask where
  val := ⟨.reserve sampleTenant otherRequest (sampleContract .idempotent 0), sampleTime 0, uuid⟩
  property := otherRequest_wellFormed

/-- Two operations that draw the same id. -/
theorem only_new_ids_collide_sample :
    let w := sampleServer (uninterrupted 0 (reserveSample (str "1")) 4 ++
      .start 1 (reserveOther (str "1")) :: statements 1 2)
    ∃ (task : PostgresTask) (since : Nat) (writes : List PostgresWrite),
      w.transaction 1 = some ⟨task, since, .raised (violates .intentsPkey), writes⟩ ∧
      ∃ tenantId request contract, task.1.call = .reserve tenantId request contract := by
  intro w
  have hexc : (w.transaction 1).bind Transaction.exception = some (violates .intentsPkey) := by
    decide +kernel
  obtain ⟨task, since, writes, ht⟩ := w.exists_raised hexc
  have hkeys : ∀ tenantId, Unconstrained (sampleKeys tenantId) := fun tenantId =>
    (unconstrained_encode tenantId).bind fun _ => .ok _
  rcases only_new_ids_collide (sampleServer_reachable _) hkeys ht with ⟨-, hcall⟩ | ⟨hreceipts, -⟩
  · exact ⟨task, since, writes, ht, hcall⟩
  · cases hreceipts

end
end EffectBroker
