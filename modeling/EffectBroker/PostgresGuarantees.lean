import EffectBroker.PostgresRuns

/-!
# Guarantees of the Postgres store

What callers can rely on, read off the serial runs: an operation has one effect however many
callers race for it, no version of an effect and no attempt is handed out twice, and a
receipt is there exactly for a success and never changes.
-/
namespace EffectBroker
open Python Concurrency Transactions

/-! ## Ledgers only grow -/

/-- A later ledger, with more attempts and more events.  One that is settled stays so. -/
structure EffectLedger.Grows (l l' : EffectLedger) : Prop extends l.Later l' where
  attempts : l.attempts <+: l'.attempts
  events : l.events <+: l'.events
  settled : isTerminal l.record.status = true → l'.record = l.record ∧ l'.lease = l.lease ∧
    InMemoryStore.lastSuccess l'.events = InMemoryStore.lastSuccess l.events

theorem EffectLedger.Grows.refl (l : EffectLedger) : l.Grows l :=
  ⟨.refl l, List.prefix_rfl, List.prefix_rfl, fun _ => ⟨rfl, rfl, rfl⟩⟩

theorem EffectLedger.Grows.trans {l l' l'' : EffectLedger} (h : l.Grows l') (h' : l'.Grows l'') :
    l.Grows l'' := by
  refine ⟨h.toLater.trans h'.toLater, h.attempts.trans h'.attempts, h.events.trans h'.events, ?_⟩
  intro ht
  obtain ⟨hrecord, hlease, hlast⟩ := h.settled ht
  rw [← hrecord] at ht
  obtain ⟨hrecord', hlease', hlast'⟩ := h'.settled ht
  exact ⟨hrecord'.trans hrecord, hlease'.trans hlease, hlast'.trans hlast⟩

theorem LedgerStep.grows {l l' : EffectLedger} (h : LedgerStep (some l) l') : l.Grows l' := by
  refine ⟨h.later, ?_, ?_, fun ht => ?_⟩
  · cases h with
    | claimed => exact List.prefix_rfl
    | attempted => exact List.prefix_append _ _
    | moved => exact List.prefix_rfl
  · cases h with
    | claimed => exact List.prefix_append _ _
    | attempted => exact List.prefix_append _ _
    | moved => exact List.prefix_append _ _
  · -- a settled effect can only be attempted again
    cases h with
    | claimed hdue =>
      have hclaimable := (Bool.and_eq_true_iff.mp hdue).1
      rw [not_isClaimable_of_terminal ht] at hclaimable
      cases hclaimable
    | attempted => exact ⟨rfl, rfl, lastSuccess_attempted ..⟩
    | moved hallowed =>
      rw [isAllowed_of_terminal ht] at hallowed
      cases hallowed

/-- The ledgers of a book are those of a later one, which have grown. -/
def Book.Earlier (b b' : Book) : Prop :=
  ∀ e l, b.ledger e = some l → ∃ l', b'.ledger e = some l' ∧ l.Grows l'

namespace Book
variable {b b' b'' : Book}

theorem Earlier.refl (b : Book) : b.Earlier b := fun _ l hl => ⟨l, hl, .refl l⟩

theorem Earlier.trans (h : b.Earlier b') (h' : b'.Earlier b'') : b.Earlier b'' := by
  intro e l hl
  obtain ⟨l', hl', hgrows⟩ := h e l hl
  obtain ⟨l'', hl'', hgrows'⟩ := h' e l' hl'
  exact ⟨l'', hl'', hgrows.trans hgrows'⟩

theorem Step.earlier (h : Step b b') : b.Earlier b' := by
  intro e l hl
  cases h with
  | @reserve record hid hidentity hs hv =>
    refine ⟨l, ?_, .refl l⟩
    rw [ledger_append, hl]
    rfl
  | @change f hf =>
    have hids : ∀ l ∈ b, (f l).id = l.id := by
      intro l hm
      rcases hf l hm with h | h
      · rw [h]
      · exact h.id
    refine ⟨f l, ?_, ?_⟩
    · rw [ledger_map hids, hl]
      rfl
    · rcases hf l (mem_of_ledger hl).1 with h | h
      · rw [h]
        exact .refl l
      · exact h.grows

theorem Step.evident (h : Step b b') (hb : ∀ l ∈ b, l.Evident) : ∀ l ∈ b', l.Evident := by
  cases h with
  | @reserve record hid hidentity hs hv =>
    refine List.forall_mem_append.mpr ⟨hb, List.forall_mem_singleton.mpr ?_⟩
    exact (LedgerStep.reserved hs hv).evident fun _ hnone => by cases hnone
  | @change f hf =>
    refine List.forall_mem_map.mpr fun l hl => ?_
    rcases hf l hl with hsame | hstep
    · rw [hsame]
      exact hb l hl
    · refine hstep.evident fun before hbefore => ?_
      obtain rfl := Option.some.inj hbefore
      exact hb l hl

/-- An operation keeps its effect. -/
theorem Earlier.reserved (h : b.Earlier b') (hb : b.Unique) (hb' : b'.Unique) {t k : Str}
    {l : EffectLedger} (hl : b.reserved t k = some l) :
    ∃ l', b'.reserved t k = some l' ∧ l.Grows l' := by
  obtain ⟨hm, hidentity⟩ := mem_of_reserved hl
  obtain ⟨l', hl', hgrows⟩ := h l.id l (hb.ledger_of_mem hm)
  obtain ⟨rfl, rfl⟩ := Prod.mk.inj (hgrows.toLater.identity.trans hidentity)
  exact ⟨l', hb'.reserved_of_mem (mem_of_ledger hl').1, hgrows⟩

end Book

/-- The books of a timeline are good, and each is earlier than the last. -/
structure PostgresBook.History (a : PostgresBook) : Prop where
  good : ∀ b ∈ a.timeline, b.Good
  evident : ∀ b ∈ a.timeline, ∀ l ∈ b, l.Evident
  earlier : ∀ b ∈ a.timeline, b.Earlier a.book

theorem PostgresBook.history_empty : PostgresBook.empty.History where
  good := List.forall_mem_singleton.mpr ⟨⟨List.nodup_nil, List.nodup_nil⟩, List.forall_mem_nil _⟩
  evident := List.forall_mem_singleton.mpr (List.forall_mem_nil _)
  earlier := List.forall_mem_singleton.mpr (.refl _)

theorem PostgresBook.History.book {a : PostgresBook} (h : a.History) : a.book.Good :=
  h.good a.book (List.mem_cons_self ..)

/-- One more book. -/
theorem PostgresBook.History.step {a a' : PostgresBook} (h : a.History) (hpast : a'.past = a.timeline)
    (hstep : a'.book = a.book ∨ Book.Step a.book a'.book) : a'.History := by
  obtain ⟨hgood, hevident, hearlier⟩ :
      a'.book.Good ∧ (∀ l ∈ a'.book, l.Evident) ∧ a.book.Earlier a'.book := by
    have hevident := h.evident a.book (List.mem_cons_self ..)
    rcases hstep with hsame | hstep
    · rw [hsame]
      exact ⟨h.book, hevident, .refl _⟩
    · exact ⟨hstep.good h.book, hstep.evident hevident, hstep.earlier⟩
  obtain ⟨hgoods, hevidents, hearliers⟩ := h
  rw [← hpast] at hgoods hevidents hearliers
  refine ⟨List.forall_mem_cons.mpr ⟨hgood, hgoods⟩, List.forall_mem_cons.mpr ⟨hevident, hevidents⟩,
    List.forall_mem_cons.mpr ⟨.refl _, ?_⟩⟩
  intro b hb
  exact (hearliers b hb).trans hearlier

section
variable {jsonb : Jsonb} {secrets : Secrets} {c : TimedCall} {since : Nat} {value : StoreValue}
  {a a' : PostgresBook}

/-- Claiming due ledgers is a step. -/
theorem Book.step_claims {b : Book} (hb : b.Unique) {picked : Book}
    (hpicked : ∀ l ∈ picked, b.ledger l.id = some l) {now : Datetime}
    (hdue : ∀ l ∈ picked, l.due now = true) (workerId : Str) (expiresAt : Datetime) :
    Step b (b.claimAll (picked.map EffectLedger.id) workerId now expiresAt) := by
  refine .change fun l hl => ?_
  by_cases hm : l.id ∈ picked.map EffectLedger.id
  · obtain ⟨l', hl', hid⟩ := List.mem_map.mp hm
    have hfound := hpicked l' hl'
    rw [hid, hb.ledger_of_mem hl] at hfound
    cases hfound
    rw [if_pos hm]
    exact .inr (.claimed (hdue l hl'))
  · rw [if_neg hm]
    exact .inl rfl

/-- A committed call leaves the book, or takes it one step further. -/
theorem CallStep.step (h : CallStep jsonb secrets c since value a a') (ha : a.book.Unique) :
    a'.book = a.book ∨ Book.Step a.book a'.book := by
  obtain ⟨-, h⟩ := h
  obtain ⟨call, now, uuid⟩ := c
  cases call with
  | reserve tenantId request contract =>
    obtain ⟨reservation, y, -, hreserve, -⟩ := h
    obtain ⟨record, hnew, ⟨l, -, -, -, hsame⟩ | ⟨hidentity, hfresh, -, hbook⟩⟩ :=
      Book.reserve_ok hreserve
    · exact .inl hsame
    · obtain ⟨digest, tenantKey, key, -, -, -, hrecord⟩ := newRecord_ok hnew
      rw [hbook]
      refine .inr (.reserve hfresh ?_ ?_ ?_)
      · rw [hrecord]
        exact hidentity
      · rw [hrecord]
      · rw [hrecord]
  | claimDue workerId now' leaseFor limit =>
    obtain ⟨records, -, ⟨-, -, hsame⟩ | ⟨leaseUntil, skip, b, -, -, -, -, hpicked, hbook⟩⟩ := h
    · exact .inl hsame
    · rw [hbook]
      exact .inr (Book.step_claims ha hpicked
        (fun l hl => EffectLedger.due_of_overdue (Book.mem_picksOverdue hl).2) workerId leaseUntil)
  | startAttempt e expectedVersion workerId =>
    obtain ⟨attemptId, -, hstart⟩ := h
    obtain ⟨l, hl, -, -, hbook⟩ := Book.startAttempt_ok hstart
    rw [hbook]
    exact .inr (Book.step_modify ha hl .attempted)
  | transition e expectedVersion target data =>
    obtain ⟨record, y, -, htransition, -⟩ := h
    obtain ⟨l, hl, -, hallowed, -, hbook⟩ := Book.transition_ok htransition
    rw [hbook]
    exact .inr (Book.step_modify ha hl (.moved hallowed))
  | get | list | receipt | events | attemptCount | count => exact .inl h.1

/-- The timeline of a serial run. -/
theorem SerialCalls.history {log : List (Commit PostgresTask StoreValue)}
    (h : SerialCalls jsonb secrets log a) : a.History :=
  Serial.invariant h PostgresBook.history_empty fun hb hs =>
    hb.step hs.1 (CallStep.step hs hb.book.toUnique)

/-! ## One effect for an operation -/

/-- The operation and the reply of a committed reservation. -/
def reservationOf (entry : Commit PostgresTask StoreValue) : List ((Str × Str) × Reservation) :=
  match entry.task.1.call, entry.value with
  | .reserve tenantId request _, .reservation reservation =>
    [((tenantId, request.operationKey), reservation)]
  | _, _ => []

/-- The operation that a committed reservation has created. -/
def createdOf (entry : Commit PostgresTask StoreValue) : List (Str × Str) :=
  ((reservationOf entry).filter (·.2.created)).map Prod.fst

/-- The effect of a reply is that of its operation. -/
def RepliesEffect (a : PostgresBook) (x : (Str × Str) × Reservation) : Prop :=
  ∃ l, a.book.reserved x.1.1 x.1.2 = some l ∧ x.2.effect.effectId = l.id ∧
    x.2.effect.requestHash = l.record.requestHash

/-- A step keeps the operations. -/
theorem CallStep.reserved (h : CallStep jsonb secrets c since value a a') (ha : a.History) {t k : Str}
    {l : EffectLedger} (hl : a.book.reserved t k = some l) :
    ∃ l', a'.book.reserved t k = some l' ∧ l.Grows l' := by
  have hhistory := ha.step h.1 (h.step ha.book.toUnique)
  have hearlier : a.book.Earlier a'.book := by
    refine hhistory.earlier a.book (List.mem_cons_of_mem _ ?_)
    rw [h.1]
    exact List.mem_cons_self ..
  exact hearlier.reserved ha.book.toUnique hhistory.book.toUnique hl

theorem repliesEffect_step {task : PostgresTask} {x : (Str × Str) × Reservation} (ha : a.History)
    (h : CallStep jsonb secrets task.1 since value a a') (hx : RepliesEffect a x) : RepliesEffect a' x := by
  obtain ⟨l, hl, hid, hhash⟩ := hx
  obtain ⟨l', hl', hgrows⟩ := h.reserved ha hl
  refine ⟨l', hl', hid.trans hgrows.toLater.id.symm, hhash.trans ?_⟩
  rw [hgrows.same]

/-- A committed reservation replies the effect of its operation, which it creates if there is
none. -/
theorem repliesEffect_new {task : PostgresTask} (ha : a.History)
    (h : CallStep jsonb secrets task.1 since value a a') {x : (Str × Str) × Reservation}
    (hx : x ∈ reservationOf ⟨task, since, value⟩) :
    RepliesEffect a' x ∧ (x.2.created = true → a.book.reserved x.1.1 x.1.2 = none) := by
  have hhistory := ha.step h.1 (h.step ha.book.toUnique)
  obtain ⟨⟨call, now, uuid⟩, hwf⟩ := task
  cases call with
  | reserve tenantId request contract =>
    obtain ⟨hpast, reservation, y, rfl, hreserve, hcreated, -, b, hb, l, hl, hread⟩ := h
    obtain rfl := List.mem_singleton.mp hx
    obtain ⟨arguments, keyRetention, settlementBound, heffect⟩ := Jsonb.read_ok hread
    constructor
    · -- the reply was read from a book of the past, and operations keep their effects
      have hb := PostgresBook.mem_timeline hb
      obtain ⟨l', hl', hgrows⟩ := (hhistory.earlier b hb).reserved (hhistory.good b hb).toUnique
        hhistory.book.toUnique hl
      refine ⟨l', hl', ?_, ?_⟩
      · rw [hgrows.toLater.id]
        show reservation.effect.effectId = l.record.effectId
        rw [heffect]
      · show reservation.effect.requestHash = l'.record.requestHash
        rw [heffect, hgrows.same]
    · intro hnew
      obtain ⟨record, -, ⟨found, -, -, rfl, -⟩ | ⟨hnone, -⟩⟩ := Book.reserve_ok hreserve
      · have hnew : reservation.created = true := hnew
        rw [hcreated] at hnew
        cases hnew
      · exact hnone
  | claimDue | startAttempt | transition | get | list | receipt | events | attemptCount | count =>
    cases value <;> cases hx

/-- All replies of a serial run are about the effects of their operations. -/
theorem SerialCalls.repliesEffect {log : List (Commit PostgresTask StoreValue)}
    (h : SerialCalls jsonb secrets log a) : ∀ x ∈ log.flatMap reservationOf, RepliesEffect a x := by
  refine Serial.lasting (I := PostgresBook.History) h PostgresBook.history_empty
    (fun hb hs => hb.step hs.1 (CallStep.step hs hb.book.toUnique)) ?_ ?_
  · intro entry b b' x hb hs hx
    exact repliesEffect_step hb hs hx
  · intro entry b b' hb hs x hx
    exact (repliesEffect_new hb hs hx).1

theorem nodup_createdOf (entry : Commit PostgresTask StoreValue) : (createdOf entry).Nodup := by
  have hlength : (createdOf entry).length ≤ 1 := by
    unfold createdOf
    rw [List.length_map]
    refine (List.length_filter_le _ _).trans ?_
    unfold reservationOf
    split
    · exact le_rfl
    · exact Nat.zero_le 1
  generalize createdOf entry = created at hlength
  rcases created with _ | ⟨x, _ | ⟨y, rest⟩⟩
  · exact List.nodup_nil
  · exact List.nodup_singleton x
  · rw [List.length_cons, List.length_cons] at hlength
    omega

/-- **One effect for an operation**: however many callers race for it, all of them are told
the same effect, of the same request, and it is created once. -/
theorem one_effect_per_operation {w : PostgresServer} (h : PostgresReachable jsonb secrets w) :
    (∀ x ∈ w.log.flatMap reservationOf, ∀ y ∈ w.log.flatMap reservationOf, x.1 = y.1 →
      x.2.effect.effectId = y.2.effect.effectId ∧ x.2.effect.requestHash = y.2.effect.requestHash) ∧
    (w.log.flatMap createdOf).Nodup := by
  obtain ⟨a, hserial, -⟩ := postgres_consistent h
  constructor
  · have hreplies := SerialCalls.repliesEffect hserial
    intro x hx y hy hxy
    obtain ⟨l, hl, hid, hhash⟩ := hreplies x hx
    obtain ⟨l', hl', hid', hhash'⟩ := hreplies y hy
    rw [hxy, hl'] at hl
    cases hl
    exact ⟨hid.trans hid'.symm, hhash.trans hhash'.symm⟩
  · refine (Serial.handed_out (I := PostgresBook.History)
      (S := fun a (x : Str × Str) => (a.book.reserved x.1 x.2).isSome) hserial
      PostgresBook.history_empty (fun hb hs => hb.step hs.1 (CallStep.step hs hb.book.toUnique))
      (fun hb hs hx => ?_) fun hb hs => ⟨nodup_createdOf _, fun x hx => ?_⟩)
    · obtain ⟨l, hl⟩ := Option.isSome_iff_exists.mp hx
      obtain ⟨l', hl', -⟩ := CallStep.reserved hs hb hl
      exact Option.isSome_iff_exists.mpr ⟨l', hl'⟩
    · obtain ⟨y, hy, rfl⟩ := List.mem_map.mp hx
      obtain ⟨hy, hcreated⟩ := List.mem_filter.mp hy
      obtain ⟨⟨l, hl, -⟩, hnone⟩ := repliesEffect_new hb hs hy
      refine ⟨?_, Option.isSome_iff_exists.mpr ⟨l, hl⟩⟩
      rw [hnone hcreated]
      simp

/-- Two callers, of whom the second waits for the first. -/
theorem one_effect_per_operation_sample :
    let w := sampleServer (raceSample ++ [.commit 1])
    (w.log.flatMap reservationOf).map (fun x => x.2.created) = [false, true] ∧
    (∀ x ∈ w.log.flatMap reservationOf, ∀ y ∈ w.log.flatMap reservationOf, x.1 = y.1 →
      x.2.effect.effectId = y.2.effect.effectId ∧ x.2.effect.requestHash = y.2.effect.requestHash) ∧
    (w.log.flatMap createdOf).Nodup :=
  ⟨by decide +kernel, one_effect_per_operation (sampleServer_reachable _)⟩

/-! ## Versions and attempts -/

/-- The versions of effects that a committed call hands to its caller. -/
def versionsOf (entry : Commit PostgresTask StoreValue) : List (Str × Nat) :=
  match entry.task.1.call, entry.value with
  | .claimDue _ _ _ _, .effects records => records.map fun r => (r.effectId, r.version)
  | .transition _ _ _ _, .effect record => [(record.effectId, record.version)]
  | _, _ => []

/-- The attempt that a committed call hands to its caller. -/
def attemptIdsOf (entry : Commit PostgresTask StoreValue) : List Str :=
  match entry.task.1.call, entry.value with
  | .startAttempt _ _ _, .attemptId attemptId => [attemptId]
  | _, _ => []

/-- An effect has had a version. -/
def PostgresBook.Reached (a : PostgresBook) (x : Str × Nat) : Prop :=
  ∃ l, a.book.ledger x.1 = some l ∧ x.2 ≤ l.record.version

/-- An attempt has been started. -/
def PostgresBook.Started (a : PostgresBook) (attemptId : Str) : Prop :=
  ∃ e l, a.book.ledger e = some l ∧ ∃ attempt ∈ l.attempts, attempt.attemptId = attemptId

theorem CallStep.earlier (h : CallStep jsonb secrets c since value a a') (ha : a.book.Unique) :
    a.book.Earlier a'.book := by
  rcases h.step ha with hsame | hstep
  · rw [hsame]
    exact .refl _
  · exact hstep.earlier

/-- The version of a record that is read. -/
theorem Jsonb.read_version {record read : EffectRecord} (h : jsonb.read record = .ok read) :
    read.effectId = record.effectId ∧ read.version = record.version := by
  obtain ⟨arguments, keyRetention, settlementBound, rfl⟩ := Jsonb.read_ok h
  exact ⟨rfl, rfl⟩

theorem Jsonb.read_versions {records reads : List EffectRecord}
    (h : List.Forall₂ (fun record read => jsonb.read record = .ok read) records reads) :
    reads.map (fun r => (r.effectId, r.version)) = records.map fun r => (r.effectId, r.version) := by
  induction h with
  | nil => rfl
  | cons hread hrest ih =>
    obtain ⟨hid, hversion⟩ := Jsonb.read_version hread
    rw [List.map_cons, List.map_cons, ih, hid, hversion]

/-- The versions of the records that a claim reads back. -/
theorem Jsonb.claimed_versions {now : Datetime} {picked : Book} {records : List EffectRecord}
    (h : List.Forall₂ (fun l record => jsonb.read (claimedRecord l.record now) = .ok record)
      picked records) :
    records.map (fun r => (r.effectId, r.version)) =
      picked.map fun l => (l.id, l.record.version + 1) := by
  have hreads := Jsonb.read_versions
    (List.forall₂_map_left_iff (f := fun l : EffectLedger => claimedRecord l.record now).mpr h)
  rw [hreads, List.map_map]
  rfl

theorem Book.claimAll_ledger (b : Book) (ids : List Str) (workerId : Str) (now expiresAt : Datetime)
    (e : Str) : (b.claimAll ids workerId now expiresAt).ledger e =
      (b.ledger e).map fun l => if l.id ∈ ids then l.claimed workerId now expiresAt else l := by
  unfold Book.claimAll
  refine Book.ledger_map (fun l _ => ?_) e
  split
  · rfl
  · rfl

/-- The versions that a call hands out are new. -/
theorem versionsOf_new {task : PostgresTask} (ha : a.History)
    (h : CallStep jsonb secrets task.1 since value a a') :
    (versionsOf ⟨task, since, value⟩).Nodup ∧ ∀ x ∈ versionsOf ⟨task, since, value⟩, ¬a.Reached x ∧ a'.Reached x := by
  obtain ⟨⟨call, now, uuid⟩, hwf⟩ := task
  have hnone : versionsOf ⟨⟨⟨call, now, uuid⟩, hwf⟩, since, value⟩ = [] →
      (versionsOf ⟨⟨⟨call, now, uuid⟩, hwf⟩, since, value⟩).Nodup ∧
        ∀ x ∈ versionsOf ⟨⟨⟨call, now, uuid⟩, hwf⟩, since, value⟩, ¬a.Reached x ∧ a'.Reached x := by
    intro hnil
    rw [hnil]
    exact ⟨List.nodup_nil, List.forall_mem_nil _⟩
  cases call with
  | claimDue workerId now' leaseFor limit =>
    obtain ⟨-, records, rfl, ⟨-, rfl, -⟩ |
      ⟨leaseUntil, skip, b, hb, -, -, hrecords, hpicked, hbook⟩⟩ := h
    · exact hnone rfl
    · have hversions : versionsOf ⟨⟨⟨.claimDue workerId now' leaseFor limit, now, uuid⟩, hwf⟩, since,
          .effects records⟩ =
          (Book.picksOverdue b.queue skip now' limit).map fun l => (l.id, l.record.version + 1) :=
        Jsonb.claimed_versions hrecords
      rw [hversions]
      constructor
      · refine List.Nodup.of_map Prod.fst ?_
        rw [List.map_map]
        exact Book.nodup_picksOverdue (ha.good b (PostgresBook.mem_timeline hb)).toUnique skip now' limit
      · intro x hx
        obtain ⟨l, hl, rfl⟩ := List.mem_map.mp hx
        have hledger := hpicked l hl
        constructor
        · rintro ⟨l', hl', hle⟩
          rw [hledger] at hl'
          cases hl'
          have hle : l.record.version + 1 ≤ l.record.version := hle
          omega
        · refine ⟨l.claimed workerId now' leaseUntil, ?_, le_rfl⟩
          rw [hbook, Book.claimAll_ledger, hledger, Option.map_some, if_pos (List.mem_map_of_mem hl)]
  | transition e expectedVersion target data =>
    obtain ⟨-, record, y, rfl, htransition, hread⟩ := h
    obtain ⟨l, hl, -, -, rfl, hbook⟩ := Book.transition_ok htransition
    obtain ⟨hid, hversion⟩ := Jsonb.read_version hread
    have hversions : versionsOf ⟨⟨⟨.transition e expectedVersion target data, now, uuid⟩, hwf⟩, since,
        .effect record⟩ = [(e, l.record.version + 1)] := by
      show [(record.effectId, record.version)] = _
      rw [hid, hversion]
      exact congrArg (fun id => [(id, l.record.version + 1)]) (Book.mem_of_ledger hl).2
    rw [hversions]
    refine ⟨List.nodup_singleton _, List.forall_mem_singleton.mpr ⟨?_, ?_⟩⟩
    · rintro ⟨l', hl', hle⟩
      rw [hl] at hl'
      cases hl'
      have hle : l.record.version + 1 ≤ l.record.version := hle
      omega
    · refine ⟨l.moved target now data, ?_, le_rfl⟩
      rw [hbook]
      exact Book.ledger_modify_self (fun _ => rfl) hl
  | reserve | startAttempt | get | list | receipt | events | attemptCount | count =>
    cases value <;> exact hnone rfl

/-- The attempt that a call hands out is new. -/
theorem attemptIdsOf_new {task : PostgresTask} (ha : a.History)
    (h : CallStep jsonb secrets task.1 since value a a') :
    (attemptIdsOf ⟨task, since, value⟩).Nodup ∧
      ∀ x ∈ attemptIdsOf ⟨task, since, value⟩, ¬a.Started x ∧ a'.Started x := by
  obtain ⟨⟨call, now, uuid⟩, hwf⟩ := task
  cases call with
  | startAttempt e expectedVersion workerId =>
    obtain ⟨-, attemptId, rfl, hstart⟩ := h
    obtain ⟨l, hl, -, rfl, hbook⟩ := Book.startAttempt_ok hstart
    obtain ⟨hm, rfl⟩ := Book.mem_of_ledger hl
    show [attemptIdOf l.id (l.attempts.length + 1)].Nodup ∧
      ∀ x ∈ [attemptIdOf l.id (l.attempts.length + 1)], _
    refine ⟨List.nodup_singleton _, List.forall_mem_singleton.mpr ⟨?_, ?_⟩⟩
    · -- the attempts of an effect are numbered, and their ids tell the effect and the number
      rintro ⟨e, l', hl', attempt, hattempt, hid⟩
      obtain ⟨hm', -⟩ := Book.mem_of_ledger hl'
      have hpair : (attempt.ordinal, attempt.attemptId) ∈
          l'.attempts.map fun row => (row.ordinal, row.attemptId) := List.mem_map_of_mem hattempt
      rw [(ha.book.sound l' hm').attempts] at hpair
      obtain ⟨n, hn, hpair⟩ := List.mem_map.mp hpair
      obtain ⟨he, hn'⟩ := attemptIdOf_inj ((Prod.mk.inj hpair).2.trans hid)
      have hsame := ha.book.ledger_of_mem hm'
      rw [show l'.id = l.id from he, hl] at hsame
      cases hsame
      have hle := List.mem_range'_1.mp hn
      omega
    · refine ⟨l.id, l.attempted workerId now, ?_, ⟨attemptIdOf l.id (l.attempts.length + 1), l.id,
        l.attempts.length + 1, workerId, l.record.version, now⟩, ?_, rfl⟩
      · rw [hbook]
        exact Book.ledger_modify_self (fun _ => rfl) hl
      · exact List.mem_append_right _ (List.mem_singleton.mpr rfl)
  | reserve | claimDue | transition | get | list | receipt | events | attemptCount | count =>
    cases value <;> exact ⟨List.nodup_nil, List.forall_mem_nil _⟩

/-- **No version is handed out twice**: claims and transitions, of whatever processes, never
return the same version of an effect. -/
theorem versions_nodup {w : PostgresServer} (h : PostgresReachable jsonb secrets w) :
    (w.log.flatMap versionsOf).Nodup := by
  obtain ⟨a, hserial, -⟩ := postgres_consistent h
  refine (Serial.handed_out (I := PostgresBook.History) (S := PostgresBook.Reached) hserial
    PostgresBook.history_empty (fun hb hs => hb.step hs.1 (CallStep.step hs hb.book.toUnique))
    (fun hb hs hx => ?_) fun hb hs => versionsOf_new hb hs)
  obtain ⟨l, hl, hle⟩ := hx
  obtain ⟨l', hl', hgrows⟩ := CallStep.earlier hs hb.book.toUnique _ l hl
  refine ⟨l', hl', hle.trans ?_⟩
  rcases hgrows.version with hsame | hlt
  · rw [hsame]
  · exact hlt.le

theorem versions_nodup_sample :
    let w := sampleServer successSample
    (w.log.flatMap versionsOf).length = 3 ∧ (w.log.flatMap versionsOf).Nodup :=
  ⟨by decide +kernel, versions_nodup (sampleServer_reachable _)⟩

/-- **No attempt is handed out twice.** -/
theorem attemptIds_nodup {w : PostgresServer} (h : PostgresReachable jsonb secrets w) :
    (w.log.flatMap attemptIdsOf).Nodup := by
  obtain ⟨a, hserial, -⟩ := postgres_consistent h
  refine (Serial.handed_out (I := PostgresBook.History) (S := PostgresBook.Started) hserial
    PostgresBook.history_empty (fun hb hs => hb.step hs.1 (CallStep.step hs hb.book.toUnique))
    (fun hb hs hx => ?_) fun hb hs => attemptIdsOf_new hb hs)
  obtain ⟨e, l, hl, attempt, hattempt, hid⟩ := hx
  obtain ⟨l', hl', hgrows⟩ := CallStep.earlier hs hb.book.toUnique e l hl
  exact ⟨e, l', hl', attempt, hgrows.attempts.subset hattempt, hid⟩

/-- Two attempts at one version. -/
theorem attemptIds_nodup_sample :
    let w := sampleServer (uninterrupted 0 (reserveSample (str "1")) 4 ++
      uninterrupted 1 (attemptSample 0) 5 ++ uninterrupted 2 (attemptSample 0) 5)
    (w.log.flatMap attemptIdsOf).length = 2 ∧ (w.log.flatMap attemptIdsOf).Nodup :=
  ⟨by decide +kernel, attemptIds_nodup (sampleServer_reachable _)⟩

end
end EffectBroker
