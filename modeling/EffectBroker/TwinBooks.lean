import EffectBroker.LedgerStore

/-!
# Twin books

Two books with the same effects, but other effect ids and other readings of the wall
clock.  Served the same calls, twins stay twins, and reply the same up to the ids and the
clock.  Only the order in time matters, so both books have to be in the order in which
their effects were reserved.
-/
namespace EffectBroker
open Python

/-- The data of an `attempt_started` event. -/
def attemptData (attemptId workerId : Str) (ordinal : Nat) : Items :=
  [(text "attempt_id", .str attemptId), (text "ordinal", .int ordinal),
    (text "worker_id", .str workerId)]

section
variable (times : Datetime → Datetime → Prop)

/-- Records of one effect under two ids. -/
structure TwinRecord (p q : EffectRecord) : Prop where
  same : q = { p with effectId := q.effectId, createdAt := q.createdAt, updatedAt := q.updatedAt }
  createdAt : times p.createdAt q.createdAt
  updatedAt : times p.updatedAt q.updatedAt

/-- Events of one effect under the ids `e` and `e'`. -/
structure TwinEvent (e e' : Str) (p q : MemoryEvent) : Prop where
  same : q = { p with effectId := q.effectId, at_ := q.at_, data := q.data }
  ids : p.effectId = e ∧ q.effectId = e'
  at_ : times p.at_ q.at_
  data : q.data = p.data ∨ p.eventType = .attemptStarted ∧ ∃ workerId ordinal,
    p.data = attemptData (attemptIdOf e ordinal) workerId ordinal ∧
      q.data = attemptData (attemptIdOf e' ordinal) workerId ordinal

/-- Ledgers of one effect under two ids. -/
structure TwinLedger (l l' : EffectLedger) : Prop where
  record : TwinRecord times l.record l'.record
  lease : l'.lease = l.lease
  attempts : l'.attempts.length = l.attempts.length
  events : List.Forall₂ (TwinEvent times l.id l'.id) l.events l'.events

end

variable {times times' : Datetime → Datetime → Prop}

/-! ## More readings of the clock -/

theorem TwinRecord.mono {p q : EffectRecord} (h : TwinRecord times p q)
    (htimes : ∀ t t', times t t' → times' t t') : TwinRecord times' p q :=
  ⟨h.same, htimes _ _ h.createdAt, htimes _ _ h.updatedAt⟩

theorem TwinEvent.mono {e e' : Str} {p q : MemoryEvent} (h : TwinEvent times e e' p q)
    (htimes : ∀ t t', times t t' → times' t t') : TwinEvent times' e e' p q :=
  ⟨h.same, h.ids, htimes _ _ h.at_, h.data⟩

theorem TwinLedger.mono {l l' : EffectLedger} (h : TwinLedger times l l')
    (htimes : ∀ t t', times t t' → times' t t') : TwinLedger times' l l' :=
  ⟨h.record.mono htimes, h.lease, h.attempts, h.events.imp fun _ _ hevent => hevent.mono htimes⟩

/-! ## One step of twins -/

namespace TwinLedger
variable {l l' : EffectLedger} {now now' : Datetime}

theorem status (h : TwinLedger times l l') : l'.record.status = l.record.status := by
  rw [h.record.same]

theorem version (h : TwinLedger times l l') : l'.record.version = l.record.version := by
  rw [h.record.same]

theorem identity (h : TwinLedger times l l') : l'.identity = l.identity := by
  unfold EffectLedger.identity
  rw [h.record.same]

theorem due (h : TwinLedger times l l') (now : Datetime) : l'.due now = l.due now := by
  unfold EffectLedger.due
  rw [h.status, h.lease]

/-- Twins get the next event. -/
theorem append (h : TwinLedger times l l') {record record' : EffectRecord} {lease : Option Lease}
    {attempts attempts' : List Attempt} {eventType : EventType} {version : Nat} {data data' : Items}
    (hrecord : TwinRecord times record record') (hid : record.effectId = l.id)
    (hid' : record'.effectId = l'.id) (hattempts : attempts'.length = attempts.length)
    (hnow : times now now')
    (hdata : data' = data ∨ eventType = .attemptStarted ∧ ∃ workerId ordinal,
      data = attemptData (attemptIdOf l.id ordinal) workerId ordinal ∧
        data' = attemptData (attemptIdOf l'.id ordinal) workerId ordinal) :
    TwinLedger times
      (EffectLedger.append ⟨record, lease, attempts, l.events⟩ eventType version data now)
      (EffectLedger.append ⟨record', lease, attempts', l'.events⟩ eventType version data' now') := by
  have hlength : l'.events.length = l.events.length := h.events.length_eq.symm
  refine ⟨hrecord, rfl, hattempts, ?_⟩
  show List.Forall₂ (TwinEvent times record.effectId record'.effectId) (l.events ++ [_])
    (l'.events ++ [_])
  rw [hid, hid']
  refine List.rel_append h.events (.cons ⟨?_, ⟨rfl, rfl⟩, hnow, hdata⟩ .nil)
  simp only [hlength]

theorem claimed (h : TwinLedger times l l') (hrefl : ∀ t, times t t) (workerId : Str)
    (now expiresAt : Datetime) :
    TwinLedger times (l.claimed workerId now expiresAt) (l'.claimed workerId now expiresAt) := by
  unfold EffectLedger.claimed
  rw [h.version]
  refine h.append ⟨?_, h.record.createdAt, hrefl now⟩ rfl rfl h.attempts (hrefl now) (.inl rfl)
  unfold claimedRecord
  rw [h.record.same]

theorem attempted (h : TwinLedger times l l') (hnow : times now now') (workerId : Str) :
    TwinLedger times (l.attempted workerId now) (l'.attempted workerId now') := by
  unfold EffectLedger.attempted
  rw [h.version, h.lease, h.attempts]
  refine h.append h.record rfl rfl ?_ hnow (.inr ⟨rfl, workerId, l.attempts.length + 1, rfl, rfl⟩)
  simp [h.attempts]

theorem moved (h : TwinLedger times l l') (hnow : times now now') (target : EffectStatus)
    (data : Items) : TwinLedger times (l.moved target now data) (l'.moved target now' data) := by
  unfold EffectLedger.moved
  rw [h.version, h.status]
  refine h.append ⟨?_, h.record.createdAt, hnow⟩ rfl rfl h.attempts hnow (.inl rfl)
  unfold movedRecord
  rw [h.record.same]

end TwinLedger

theorem TwinRecord.reserved {p q : EffectRecord} (h : TwinRecord times p q) :
    TwinLedger times (.reserved p) (.reserved q) := by
  have hstatus : q.status = p.status := by rw [h.same]
  have hversion : q.version = p.version := by rw [h.same]
  refine ⟨h, rfl, rfl, .cons ⟨?_, ⟨rfl, rfl⟩, h.createdAt, .inl ?_⟩ .nil⟩
  · simp only [hstatus, hversion]
  · simp only [hstatus]

/-! ## Finding twins -/

/-- Two books of the same effects, in the same order, which is that of their reservation. -/
structure Twins (times : Datetime → Datetime → Prop) (b b' : Book) : Prop where
  ledgers : List.Forall₂ (TwinLedger times) b b'
  unique : b.Unique
  unique' : b'.Unique
  sorted : b.Pairwise Book.before
  sorted' : b'.Pairwise Book.before

/-- The ids of the effects of a book. -/
def Book.ids (b : Book) : List Str := b.map EffectLedger.id

/-- The ids of the effects of two books, in pairs. -/
def idPairs (b b' : Book) : List (Str × Str) := b.ids.zip b'.ids

/-- Two ids of the same effect, by its place, or of no effect. -/
def SameEffectId (ids ids' : List Str) (e e' : Str) : Prop :=
  (e, e') ∈ ids.zip ids' ∨ e ∉ ids ∧ e' ∉ ids'

/-- Ledgers at the same place of two books. -/
def TwinsAt (times : Datetime → Datetime → Prop) (b b' : Book) (l l' : EffectLedger) : Prop :=
  TwinLedger times l l' ∧ l ∈ b ∧ l' ∈ b' ∧ (l.id, l'.id) ∈ idPairs b b'

theorem rel_find? {α β : Type} {R : α → β → Prop} {p : α → Bool} {q : β → Bool} {as : List α}
    {bs : List β} (h : List.Forall₂ R as bs) (hpq : ∀ a b, R a b → p a = q b) :
    Option.Rel R (as.find? p) (bs.find? q) := by
  induction h with
  | nil => exact .none
  | @cons a b as bs hab _ ih =>
    rw [List.find?_cons, List.find?_cons, ← hpq a b hab]
    cases p a with
    | true => exact .some hab
    | false => exact ih

namespace Twins
variable {b b' : Book} {e e' : Str} {l l' : EffectLedger}

theorem length (h : Twins times b b') : b.length = b'.length := h.ledgers.length_eq

theorem at_ (h : Twins times b b') : List.Forall₂ (TwinsAt times b b') b b' := by
  obtain ⟨hlength, htwin⟩ := List.forall₂_iff_zip.mp h.ledgers
  refine List.forall₂_iff_zip.mpr ⟨hlength, fun {l l'} hm => ?_⟩
  have hmem := List.of_mem_zip hm
  refine ⟨htwin hm, hmem.1, hmem.2, ?_⟩
  unfold idPairs Book.ids
  rw [List.zip_map]
  exact List.mem_map.mpr ⟨(l, l'), hm, rfl⟩

/-- Each id is in one pair. -/
theorem biUnique (h : Twins times b b') : Relator.BiUnique fun e e' => (e, e') ∈ idPairs b b' := by
  have hlength : b.ids.length = b'.ids.length := by
    simpa [Book.ids] using h.length
  have hleft : ((idPairs b b').map Prod.fst).Nodup := by
    rw [idPairs, List.map_fst_zip hlength.le]
    exact h.unique.ids
  have hright : ((idPairs b b').map Prod.snd).Nodup := by
    rw [idPairs, List.map_snd_zip hlength.ge]
    exact h.unique'.ids
  constructor
  · intro e e' c he he'
    exact congrArg Prod.fst (List.inj_on_of_nodup_map hright he he' rfl)
  · intro e c c' he he'
    exact congrArg Prod.snd (List.inj_on_of_nodup_map hleft he he' rfl)

/-- The same effect has twin ledgers. -/
theorem ledger (h : Twins times b b') (he : SameEffectId b.ids b'.ids e e') :
    Option.Rel (TwinsAt times b b') (b.ledger e) (b'.ledger e') := by
  rcases he with he | ⟨hnot, hnot'⟩
  · obtain ⟨hlength, hat⟩ := List.forall₂_iff_zip.mp h.at_
    unfold Book.ids at he
    rw [List.zip_map] at he
    obtain ⟨⟨l, l'⟩, hm, hids⟩ := List.mem_map.mp he
    obtain ⟨rfl, rfl⟩ := Prod.mk.inj hids
    have hmem := List.of_mem_zip hm
    rw [h.unique.ledger_of_mem hmem.1, h.unique'.ledger_of_mem hmem.2]
    exact .some (hat hm)
  · rw [Book.ledger_eq_none.mpr fun l hm hid => hnot (List.mem_map.mpr ⟨l, hm, hid⟩),
      Book.ledger_eq_none.mpr fun l hm hid => hnot' (List.mem_map.mpr ⟨l, hm, hid⟩)]
    exact .none

/-- The same operation has twin ledgers. -/
theorem reserved (h : Twins times b b') (tenantId operationKey : Str) :
    Option.Rel (TwinsAt times b b') (b.reserved tenantId operationKey)
      (b'.reserved tenantId operationKey) := by
  refine rel_find? h.at_ fun l l' hl => ?_
  rw [hl.1.identity]


/-- A change of twin ledgers, in place. -/
theorem modify (h : Twins times b b') {f f' : EffectLedger → EffectLedger}
    (he : (e, e') ∈ idPairs b b')
    (hf : ∀ l l', TwinLedger times l l' → l.id = e → l'.id = e' → TwinLedger times (f l) (f' l')) :
    List.Forall₂ (TwinLedger times) (b.modify e f) (b'.modify e' f') := by
  unfold Book.modify
  rw [List.forall₂_map_left_iff, List.forall₂_map_right_iff]
  refine h.at_.imp fun l l' hat => ?_
  have hiff : l.id = e ↔ l'.id = e' := Relator.rel_eq h.biUnique hat.2.2.2 he
  by_cases hid : l.id = e
  · rw [if_pos hid, if_pos (hiff.mp hid)]
    exact hf l l' hat.1 hid (hiff.mp hid)
  · rw [if_neg hid, if_neg fun hid' => hid (hiff.mpr hid')]
    exact hat.1

theorem queue (h : Twins times b b') : b.queue = b ∧ b'.queue = b' :=
  ⟨List.Pairwise.insertionSort_eq h.sorted, List.Pairwise.insertionSort_eq h.sorted'⟩

/-- Twins are due together. -/
theorem picks (h : Twins times b b') (now : Datetime) (limit : Int) :
    List.Forall₂ (TwinsAt times b b') (Book.picks b now limit) (Book.picks b' now limit) := by
  unfold Book.picks
  refine List.forall₂_take _ (List.rel_filter (fun l l' hat => ?_) h.at_)
  show l.due now = true ↔ l'.due now = true
  rw [hat.1.due]

theorem claimAll (h : Twins times b b') (hrefl : ∀ t, times t t) (workerId : Str)
    (now expiresAt : Datetime) (limit : Int) :
    List.Forall₂ (TwinLedger times)
      (b.claimAll ((Book.picks b now limit).map EffectLedger.id) workerId now expiresAt)
      (b'.claimAll ((Book.picks b' now limit).map EffectLedger.id) workerId now expiresAt) := by
  unfold Book.claimAll
  rw [List.forall₂_map_left_iff, List.forall₂_map_right_iff]
  refine h.at_.imp fun l l' hat => ?_
  have hpicked : l.id ∈ (Book.picks b now limit).map EffectLedger.id ↔
      l'.id ∈ (Book.picks b' now limit).map EffectLedger.id := by
    refine List.rel_mem h.biUnique hat.2.2.2 ?_
    rw [List.forall₂_map_left_iff, List.forall₂_map_right_iff]
    exact (h.picks now limit).imp fun _ _ hpicked => hpicked.2.2.2
  by_cases hid : l.id ∈ (Book.picks b now limit).map EffectLedger.id
  · rw [if_pos hid, if_pos (hpicked.mp hid)]
    exact hat.1.claimed hrefl workerId now expiresAt
  · rw [if_neg hid, if_neg fun hid' => hid (hpicked.mpr hid')]
    exact hat.1

end Twins

/-! ## Replies -/

section
variable (pairs : List (Str × Str)) (times : Datetime → Datetime → Prop)

/-- A record of the same effect, with its id renamed. -/
def RenamesRecord (p q : EffectRecord) : Prop :=
  TwinRecord times p q ∧ (p.effectId, q.effectId) ∈ pairs

/-- An event of the same effect, with its id renamed. -/
def RenamesEvent (p q : StoredEvent) : Prop :=
  ∃ e e' event event', TwinEvent times e e' event event' ∧ (e, e') ∈ pairs ∧ p = event.stored ∧
    q = event'.stored

/-- A receipt of the same effect, with its id renamed. -/
def RenamesReceipt (p q : Items) : Prop :=
  ∃ record record' metadata at_ at_', RenamesRecord pairs times record record' ∧ times at_ at_' ∧
    p = receiptOf record metadata at_ ∧ q = receiptOf record' metadata at_'

/-- Values that differ in effect ids and readings of the clock only. -/
inductive Renames : StoreValue → StoreValue → Prop
  | reservation {p q : Reservation} : RenamesRecord pairs times p.effect q.effect →
      q.created = p.created → q.replayed = p.replayed → Renames (.reservation p) (.reservation q)
  | effects {p q} : List.Forall₂ (RenamesRecord pairs times) p q → Renames (.effects p) (.effects q)
  | attemptId {e e' ordinal} : (e, e') ∈ pairs →
      Renames (.attemptId (attemptIdOf e ordinal)) (.attemptId (attemptIdOf e' ordinal))
  | effect {p q} : RenamesRecord pairs times p q → Renames (.effect p) (.effect q)
  | found {p q} : Option.Rel (RenamesRecord pairs times) p q → Renames (.found p) (.found q)
  | receipt {p q} : Option.Rel (RenamesReceipt pairs times) p q → Renames (.receipt p) (.receipt q)
  | events {p q} : List.Forall₂ (RenamesEvent pairs times) p q → Renames (.events p) (.events q)
  | number {n} : Renames (.number n) (.number n)

end

/-! ## More pairs, and more readings of the clock -/

section
variable {pairs pairs' : List (Str × Str)}

theorem RenamesRecord.mono {p q : EffectRecord} (h : RenamesRecord pairs times p q)
    (hpairs : pairs ⊆ pairs') (htimes : ∀ t t', times t t' → times' t t') :
    RenamesRecord pairs' times' p q := ⟨h.1.mono htimes, hpairs h.2⟩

theorem RenamesReceipt.mono {p q : Items} (h : RenamesReceipt pairs times p q)
    (hpairs : pairs ⊆ pairs') (htimes : ∀ t t', times t t' → times' t t') :
    RenamesReceipt pairs' times' p q := by
  obtain ⟨record, record', metadata, at_, at_', h, hat, hp, hq⟩ := h
  exact ⟨record, record', metadata, at_, at_', h.mono hpairs htimes, htimes _ _ hat, hp, hq⟩

theorem RenamesEvent.mono {p q : StoredEvent} (h : RenamesEvent pairs times p q)
    (hpairs : pairs ⊆ pairs') (htimes : ∀ t t', times t t' → times' t t') :
    RenamesEvent pairs' times' p q := by
  obtain ⟨e, e', event, event', h, he, hp, hq⟩ := h
  exact ⟨e, e', event, event', h.mono htimes, hpairs he, hp, hq⟩

theorem Renames.mono {p q : StoreValue} (h : Renames pairs times p q) (hpairs : pairs ⊆ pairs')
    (htimes : ∀ t t', times t t' → times' t t') : Renames pairs' times' p q := by
  cases h with
  | reservation h hcreated hreplayed => exact .reservation (h.mono hpairs htimes) hcreated hreplayed
  | effects h => exact .effects (h.imp fun _ _ h => h.mono hpairs htimes)
  | attemptId h => exact .attemptId (hpairs h)
  | effect h => exact .effect (h.mono hpairs htimes)
  | found h =>
    cases h with
    | none => exact .found .none
    | some h => exact .found (.some (h.mono hpairs htimes))
  | receipt h =>
    cases h with
    | none => exact .receipt .none
    | some h => exact .receipt (.some (h.mono hpairs htimes))
  | events h => exact .events (h.imp fun _ _ h => h.mono hpairs htimes)
  | number => exact .number

/-- Effects that stay in their places stay paired. -/
theorem idPairs_subset {b b' after after' : Book} (hlength : b.length = b'.length)
    (hids : b.ids <+: after.ids) (hids' : b'.ids <+: after'.ids) :
    idPairs b b' ⊆ idPairs after after' := by
  obtain ⟨new, hnew⟩ := hids
  obtain ⟨new', hnew'⟩ := hids'
  intro pair hpair
  unfold idPairs
  rw [← hnew, ← hnew', List.zip_append (by simpa [Book.ids] using hlength)]
  exact List.mem_append_left _ hpair

end

/-- Both return, and what they return is related, or both raise exceptions of one class. -/
inductive Alike {α β : Type} (R : α → β → Prop) : Except Exc α → Except Exc β → Prop
  | ok {a b} : R a b → Alike R (.ok a) (.ok b)
  | error {exc exc'} : exc.className = exc'.className → Alike R (.error exc) (.error exc')

theorem Alike.bind {α β α' β' : Type} {R : α → β → Prop} {R' : α' → β' → Prop}
    {x : Except Exc α} {y : Except Exc β} {f : α → Except Exc α'} {g : β → Except Exc β'}
    (h : Alike R x y) (hnext : ∀ a b, R a b → Alike R' (f a) (g b)) :
    Alike R' (x >>= f) (y >>= g) := by
  cases h with
  | ok hr => exact hnext _ _ hr
  | error hclass => exact .error hclass

theorem Alike.refl {α : Type} (x : Except Exc α) : Alike Eq x x := by
  cases x with
  | ok a => exact .ok rfl
  | error exc => exact .error rfl

/-! ## Calls -/

/-- The same call, with effect ids renamed. -/
inductive TwinCall (ids ids' : List Str) : StoreCall → StoreCall → Prop
  | reserve {tenantId request contract} :
      TwinCall ids ids' (.reserve tenantId request contract) (.reserve tenantId request contract)
  | claimDue {workerId now leaseFor limit} :
      TwinCall ids ids' (.claimDue workerId now leaseFor limit) (.claimDue workerId now leaseFor limit)
  | startAttempt {e e' expectedVersion workerId} : SameEffectId ids ids' e e' →
      TwinCall ids ids' (.startAttempt e expectedVersion workerId) (.startAttempt e' expectedVersion workerId)
  | transition {e e' expectedVersion target data} : SameEffectId ids ids' e e' →
      TwinCall ids ids' (.transition e expectedVersion target data) (.transition e' expectedVersion target data)
  | get {tenantId e e'} : SameEffectId ids ids' e e' → TwinCall ids ids' (.get tenantId e) (.get tenantId e')
  | list {tenantId status limit offset} :
      TwinCall ids ids' (.list tenantId status limit offset) (.list tenantId status limit offset)
  | receipt {tenantId e e'} : SameEffectId ids ids' e e' →
      TwinCall ids ids' (.receipt tenantId e) (.receipt tenantId e')
  | events {e e'} : SameEffectId ids ids' e e' → TwinCall ids ids' (.events e) (.events e')
  | attemptCount {e e'} : SameEffectId ids ids' e e' →
      TwinCall ids ids' (.attemptCount e) (.attemptCount e')
  | count : TwinCall ids ids' .count .count

/-- What twins make of a call. -/
structure TwinOutcome (times : Datetime → Datetime → Prop)
    (out out' : Except Exc StoreValue × Book) : Prop where
  reply : Alike (Renames (idPairs out.2 out'.2) times) out.1 out'.1
  ledgers : List.Forall₂ (TwinLedger times) out.2 out'.2

namespace Twins
variable {b b' : Book} {e e' : Str} {l l' : EffectLedger}

theorem outcome (h : Twins times b b') {α β : Type} {reply : α → StoreValue} {reply' : β → StoreValue}
    {x : Except Exc (α × Book)} {y : Except Exc (β × Book)}
    (hxy : Alike (fun p q => Renames (idPairs p.2 q.2) times (reply p.1) (reply' q.1) ∧
      List.Forall₂ (TwinLedger times) p.2 q.2) x y) :
    TwinOutcome times (b.outcome reply x) (b'.outcome reply' y) := by
  cases hxy with
  | ok hr => exact ⟨.ok hr.1, hr.2⟩
  | error hclass => exact ⟨.error hclass, h.ledgers⟩

theorem current (h : Twins times b b') (he : SameEffectId b.ids b'.ids e e') (expectedVersion : Int) :
    Alike (fun l l' => TwinsAt times b b' l l' ∧ l.id = e ∧ l'.id = e')
      (b.current e expectedVersion) (b'.current e' expectedVersion) := by
  have hledger := h.ledger he
  unfold Book.current
  cases hl : b.ledger e with
  | none =>
    rw [hl] at hledger
    generalize b'.ledger e' = found at hledger
    cases hledger
    exact .error rfl
  | some l =>
    rw [hl] at hledger
    cases hl' : b'.ledger e' with
    | none =>
      rw [hl'] at hledger
      cases hledger
    | some l' =>
      rw [hl'] at hledger
      cases hledger with
      | some hat =>
        simp only [hat.1.version]
        by_cases hversion : (l.record.version : Int) ≠ expectedVersion
        · rw [if_pos hversion, if_pos hversion]
          exact .error rfl
        · rw [if_neg hversion, if_neg hversion]
          exact .ok ⟨hat, (Book.mem_of_ledger hl).2, (Book.mem_of_ledger hl').2⟩

theorem idPairs_modify {f f' : EffectLedger → EffectLedger} (hf : ∀ l, (f l).id = l.id)
    (hf' : ∀ l, (f' l).id = l.id) : idPairs (b.modify e f) (b'.modify e' f') = idPairs b b' := by
  rw [idPairs, Book.ids, Book.ids, Book.map_id_modify hf, Book.map_id_modify hf']
  rfl

theorem startAttempt (h : Twins times b b') (he : SameEffectId b.ids b'.ids e e') {now now' : Datetime}
    (hnow : times now now') (expectedVersion : Int) (workerId : Str) :
    TwinOutcome times
      (b.outcome .attemptId (b.startAttempt now e expectedVersion workerId))
      (b'.outcome .attemptId (b'.startAttempt now' e' expectedVersion workerId)) := by
  refine h.outcome ((h.current he expectedVersion).bind fun l l' hl => ?_)
  obtain ⟨⟨htwin, -, -, hpair⟩, rfl, rfl⟩ := hl
  have hpairs : idPairs (b.modify l.id (·.attempted workerId now))
      (b'.modify l'.id (·.attempted workerId now')) = idPairs b b' :=
    idPairs_modify (fun _ => rfl) fun _ => rfl
  refine .ok ⟨?_, h.modify hpair fun _ _ hl _ _ => hl.attempted hnow workerId⟩
  simp only [hpairs, htwin.attempts]
  exact .attemptId hpair

theorem transition (h : Twins times b b') (he : SameEffectId b.ids b'.ids e e') {now now' : Datetime}
    (hnow : times now now') (expectedVersion : Int) (target : EffectStatus) (data : Items) :
    TwinOutcome times
      (b.outcome .effect (b.transition now e expectedVersion target data))
      (b'.outcome .effect (b'.transition now' e' expectedVersion target data)) := by
  refine h.outcome ((h.current he expectedVersion).bind fun l l' hl => ?_)
  obtain ⟨⟨htwin, -, -, hpair⟩, rfl, rfl⟩ := hl
  rw [htwin.status]
  refine (Alike.refl (assertTransition l.record.status target)).bind fun _ _ _ => ?_
  have hpairs : idPairs (b.modify l.id (·.moved target now data))
      (b'.modify l'.id (·.moved target now' data)) = idPairs b b' :=
    idPairs_modify (fun _ => rfl) fun _ => rfl
  refine .ok ⟨?_, h.modify hpair fun _ _ hl _ _ => hl.moved hnow target data⟩
  simp only [hpairs]
  exact .effect ⟨(htwin.moved hnow target data).record, hpair⟩

theorem map_id_claimAll (ids : List Str) (workerId : Str) (now expiresAt : Datetime) :
    (b.claimAll ids workerId now expiresAt).map EffectLedger.id = b.map EffectLedger.id := by
  unfold Book.claimAll
  rw [List.map_map]
  refine List.map_congr_left fun l _ => ?_
  show (if l.id ∈ ids then _ else l : EffectLedger).id = l.id
  split <;> rfl

theorem claimDue (h : Twins times b b') (hrefl : ∀ t, times t t) (workerId : Str) (now : Datetime)
    (leaseFor : Timedelta) (limit : Int) :
    TwinOutcome times
      (b.outcome .effects (b.claimDue b.queue workerId now leaseFor limit))
      (b'.outcome .effects (b'.claimDue b'.queue workerId now leaseFor limit)) := by
  refine h.outcome ?_
  rw [h.queue.1, h.queue.2]
  unfold Book.claimDue
  by_cases hlimit : limit ≤ 0
  · rw [if_pos hlimit, if_pos hlimit]
    exact .ok ⟨.effects .nil, h.ledgers⟩
  · rw [if_neg hlimit, if_neg hlimit]
    cases now.add leaseFor with
    | none => exact .error rfl
    | some expiresAt =>
      refine .ok ⟨.effects ?_, h.claimAll hrefl workerId now expiresAt limit⟩
      simp only [idPairs, Book.ids, map_id_claimAll]
      rw [List.forall₂_map_left_iff, List.forall₂_map_right_iff]
      exact (h.picks now limit).imp fun l l' hat =>
        ⟨(hat.1.claimed hrefl workerId now expiresAt).record, hat.2.2.2⟩

/-- A new record, under another id and at another time. -/
theorem newRecord {hashes : Hashes} {tenantKeyProvider : TenantKeyProvider} {now now' : Datetime}
    (hnow : times now now') (uuid uuid' tenantId : Str) (request : EffectRequest)
    (contract : EffectContract) :
    Alike (fun p q => TwinRecord times p q ∧ p.effectId = str "eff_" ++ uuid ∧
        q.effectId = str "eff_" ++ uuid' ∧ q.requestHash = p.requestHash ∧ q.tenantId = p.tenantId ∧
        q.request = p.request)
      (EffectBroker.newRecord hashes tenantKeyProvider now uuid tenantId request contract)
      (EffectBroker.newRecord hashes tenantKeyProvider now' uuid' tenantId request contract) := by
  unfold EffectBroker.newRecord
  refine (Alike.refl (requestHash ..)).bind fun digest _ hdigest => ?_
  refine (Alike.refl (tenantKeyProvider tenantId)).bind fun tenantKey _ htenantKey => ?_
  cases hdigest
  cases htenantKey
  refine (Alike.refl (downstreamKey ..)).bind fun key _ hkey => ?_
  cases hkey
  exact .ok ⟨⟨rfl, hnow, hnow⟩, rfl, rfl, rfl, rfl, rfl⟩

theorem idPairs_append (h : Twins times b b') :
    idPairs (b ++ [l]) (b' ++ [l']) = idPairs b b' ++ [(l.id, l'.id)] := by
  have hlength : b.ids.length = b'.ids.length := by
    simpa [Book.ids] using h.length
  have happend : ∀ (b : Book) l, Book.ids (b ++ [l]) = b.ids ++ [l.id] := fun b l =>
    List.map_append
  rw [idPairs, happend, happend, List.zip_append hlength]
  rfl

theorem reserve (h : Twins times b b') {hashes : Hashes} {tenantKeyProvider : TenantKeyProvider}
    {now now' : Datetime} (hnow : times now now') {uuid uuid' : Str}
    (hfree : str "eff_" ++ uuid ∉ b.ids) (hfree' : str "eff_" ++ uuid' ∉ b'.ids) (tenantId : Str)
    (request : EffectRequest) (contract : EffectContract) :
    TwinOutcome times
      (b.outcome .reservation (b.reserve hashes tenantKeyProvider now uuid tenantId request contract))
      (b'.outcome .reservation
        (b'.reserve hashes tenantKeyProvider now' uuid' tenantId request contract)) := by
  have hnone : ∀ {b : Book} {e : Str}, e ∉ b.ids → b.ledger e = none :=
    fun hnot => Book.ledger_eq_none.mpr fun l hm hid => hnot (List.mem_map.mpr ⟨l, hm, hid⟩)
  refine h.outcome ((newRecord hnow uuid uuid' tenantId request contract).bind fun p q hpq => ?_)
  obtain ⟨htwin, hp, hq, hhash, htenant, hrequest⟩ := hpq
  have hreserved := h.reserved tenantId request.operationKey
  cases hl : b.reserved tenantId request.operationKey with
  | none =>
    rw [hl] at hreserved
    generalize b'.reserved tenantId request.operationKey = found at hreserved
    cases hreserved
    simp only [hp, hq, hnone hfree, hnone hfree', Option.isSome_none, Bool.false_eq_true, if_false]
    refine .ok ⟨?_, List.rel_append h.ledgers (.cons htwin.reserved .nil)⟩
    simp only [h.idPairs_append]
    refine .reservation ⟨htwin, ?_⟩ rfl rfl
    exact List.mem_append_right _ (List.mem_singleton.mpr rfl)
  | some l =>
    rw [hl] at hreserved
    cases hl' : b'.reserved tenantId request.operationKey with
    | none =>
      rw [hl'] at hreserved
      cases hreserved
    | some l' =>
      rw [hl'] at hreserved
      cases hreserved with
      | some hat =>
        have hsame : l'.record.requestHash = l.record.requestHash := by rw [hat.1.record.same]
        simp only [hsame, hhash]
        by_cases hconflict : l.record.requestHash ≠ p.requestHash
        · rw [if_pos hconflict, if_pos hconflict]
          exact .error rfl
        · rw [if_neg hconflict, if_neg hconflict]
          exact .ok ⟨.reservation ⟨hat.1.record, hat.2.2.2⟩ rfl rfl, h.ledgers⟩

/-! ## Queries -/

theorem ofTenant (h : Twins times b b') (he : SameEffectId b.ids b'.ids e e') (tenantId : Str) :
    Option.Rel (TwinsAt times b b') (b.ofTenant tenantId e) (b'.ofTenant tenantId e') := by
  have hledger := h.ledger he
  unfold Book.ofTenant
  generalize b.ledger e = found, b'.ledger e' = found' at hledger
  cases hledger with
  | none => exact .none
  | @some l l' hat =>
    have htenant : l'.record.tenantId = l.record.tenantId := by rw [hat.1.record.same]
    rw [Option.filter_some, Option.filter_some, htenant]
    split
    · exact .some hat
    · exact .none

theorem renamesRecord (h : TwinsAt times b b' l l') :
    RenamesRecord (idPairs b b') times l.record l'.record := ⟨h.1.record, h.2.2.2⟩

/-- Twins tell of the same success. -/
theorem lastSuccess {events events' : List MemoryEvent}
    (h : List.Forall₂ (TwinEvent times e e') events events') :
    Option.Rel (fun p q => p.1 = q.1 ∧ times p.2 q.2) (InMemoryStore.lastSuccess events)
      (InMemoryStore.lastSuccess events') := by
  have hfind := rel_find? (List.rel_reverse h)
    (p := fun event => event.eventType == .transition &&
      ((event.data.get? (str "to")).any (Value.isStr EffectStatus.succeeded.value)))
    (q := fun event => event.eventType == .transition &&
      ((event.data.get? (str "to")).any (Value.isStr EffectStatus.succeeded.value)))
    fun event event' hevent => by
      have htype : event'.eventType = event.eventType := by rw [hevent.same]
      rw [htype]
      rcases hevent.data with hdata | ⟨hattempt, -⟩
      · rw [hdata]
      · rw [hattempt]
        rfl
  unfold InMemoryStore.lastSuccess
  cases hfound : events.reverse.find? fun event => event.eventType == .transition &&
      ((event.data.get? (str "to")).any (Value.isStr EffectStatus.succeeded.value)) with
  | none =>
    rw [hfound] at hfind
    generalize events'.reverse.find? _ = found' at hfind ⊢
    cases hfind
    exact .none
  | some event =>
    have hkind := List.find?_some hfound
    rw [hfound] at hfind
    generalize events'.reverse.find? _ = found' at hfind ⊢
    cases hfind with
    | @some _ event' hevent =>
      refine .some ⟨?_, hevent.at_⟩
      rcases hevent.data with hdata | ⟨hattempt, -⟩
      · simp only [hdata]
      · rw [hattempt] at hkind
        cases hkind

/-- Twins have the same receipt. -/
theorem receipt_at (h : TwinsAt times b b' l l') :
    Option.Rel (RenamesReceipt (idPairs b b') times) l.receipt l'.receipt := by
  have hlast := lastSuccess h.1.events
  unfold EffectLedger.receipt
  generalize InMemoryStore.lastSuccess l.events = last, InMemoryStore.lastSuccess l'.events = last'
    at hlast
  cases hlast with
  | none => exact .none
  | @some p q hpq =>
    obtain ⟨metadata, at_⟩ := p
    obtain ⟨metadata', at_'⟩ := q
    obtain ⟨hmetadata, hat_⟩ := hpq
    cases hmetadata
    exact .some ⟨l.record, l'.record, metadata, at_, at_', renamesRecord h, hat_, rfl, rfl⟩

theorem receipt (h : Twins times b b') (he : SameEffectId b.ids b'.ids e e') (tenantId : Str) :
    Option.Rel (RenamesReceipt (idPairs b b') times)
      ((b.ofTenant tenantId e).bind EffectLedger.receipt)
      ((b'.ofTenant tenantId e').bind EffectLedger.receipt) := by
  have hfound := h.ofTenant he tenantId
  generalize b.ofTenant tenantId e = found, b'.ofTenant tenantId e' = found' at hfound
  cases hfound with
  | none => exact .none
  | some hat => exact receipt_at hat

theorem eventsOf (h : Twins times b b') (he : SameEffectId b.ids b'.ids e e') :
    List.Forall₂ (RenamesEvent (idPairs b b') times) ((b.eventsOf e).map MemoryEvent.stored)
      ((b'.eventsOf e').map MemoryEvent.stored) := by
  have hledger := h.ledger he
  unfold Book.eventsOf
  generalize b.ledger e = found, b'.ledger e' = found' at hledger
  cases hledger with
  | none => exact .nil
  | @some l l' hat =>
    show List.Forall₂ _ (l.events.map _) (l'.events.map _)
    rw [List.forall₂_map_left_iff, List.forall₂_map_right_iff]
    exact hat.1.events.imp fun event event' hevent =>
      ⟨l.id, l'.id, event, event', hevent, hat.2.2.2, rfl, rfl⟩

theorem attemptCount (h : Twins times b b') (he : SameEffectId b.ids b'.ids e e') :
    (b'.attemptsOf e').length = (b.attemptsOf e).length := by
  have hledger := h.ledger he
  unfold Book.attemptsOf
  generalize b.ledger e = found, b'.ledger e' = found' at hledger
  cases hledger with
  | none => rfl
  | some hat => exact hat.1.attempts

theorem rel_pageOf {α β : Type} {R : α → β → Prop} {as : List α} {bs : List β}
    (h : List.Forall₂ R as bs) (limit offset : Int) :
    List.Forall₂ R (pageOf as limit offset) (pageOf bs limit offset) := by
  unfold pageOf
  simp only
  split
  · exact List.forall₂_drop _ h
  · exact List.forall₂_take _ (List.forall₂_drop _ h)

theorem list (h : Twins times b b') (tenantId : Str) (status : Option EffectStatus)
    (limit offset : Int) :
    List.Forall₂ (RenamesRecord (idPairs b b') times) (b.list tenantId status limit offset)
      (b'.list tenantId status limit offset) := by
  unfold Book.list
  rw [h.queue.1, h.queue.2]
  have hfilter : List.Forall₂ (TwinsAt times b b')
      (b.filter fun l => l.record.tenantId = tenantId &&
        status.all (fun status => l.record.status = status))
      (b'.filter fun l => l.record.tenantId = tenantId &&
        status.all (fun status => l.record.status = status)) := by
    refine List.rel_filter (fun l l' hat => ?_) h.at_
    have htenant : l'.record.tenantId = l.record.tenantId := by rw [hat.1.record.same]
    simp only [htenant, hat.1.status]
  rw [List.forall₂_map_left_iff, List.forall₂_map_right_iff]
  exact (rel_pageOf hfilter limit offset).imp fun _ _ hat => renamesRecord hat

/-- **Twins stay twins**, and reply the same. -/
theorem serve (h : Twins times b b') (hrefl : ∀ t, times t t) {hashes : Hashes}
    {tenantKeyProvider : TenantKeyProvider} {c c' : TimedCall} (hcall : TwinCall b.ids b'.ids c.call c'.call)
    (hnow : times c.now c'.now) (hfree : str "eff_" ++ c.uuid ∉ b.ids) (hfree' : str "eff_" ++ c'.uuid ∉ b'.ids) :
    TwinOutcome times (b.serve hashes tenantKeyProvider c) (b'.serve hashes tenantKeyProvider c') := by
  obtain ⟨call, now, uuid⟩ := c
  obtain ⟨call', now', uuid'⟩ := c'
  cases hcall with
  | reserve => exact h.reserve hnow hfree hfree' ..
  | claimDue => exact h.claimDue hrefl ..
  | startAttempt he => exact h.startAttempt he hnow ..
  | transition he => exact h.transition he hnow ..
  | @get tenantId e e' he =>
    refine ⟨.ok (.found ?_), h.ledgers⟩
    have hfound := h.ofTenant he tenantId
    show Option.Rel _ ((b.ofTenant tenantId e).map _) ((b'.ofTenant tenantId e').map _)
    generalize b.ofTenant tenantId e = found, b'.ofTenant tenantId e' = found' at hfound
    cases hfound with
    | none => exact .none
    | some hat => exact .some (renamesRecord hat)
  | list => exact ⟨.ok (.effects (h.list ..)), h.ledgers⟩
  | receipt he => exact ⟨.ok (.receipt (h.receipt he _)), h.ledgers⟩
  | events he => exact ⟨.ok (.events (h.eventsOf he)), h.ledgers⟩
  | @attemptCount e e' he =>
    refine ⟨.ok ?_, h.ledgers⟩
    rw [h.attemptCount he]
    exact .number
  | count =>
    refine ⟨.ok ?_, h.ledgers⟩
    rw [h.length]
    exact .number

end Twins
end EffectBroker
