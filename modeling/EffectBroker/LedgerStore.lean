import Mathlib.Data.List.Sort
import EffectBroker.LedgerBook
import EffectBroker.StoreCalls

/-!
# A store without tables

What a store is for: it keeps a book, reserves effects in it, and hands the due ones to
workers, the oldest first.  The stores are compared with this one.  A call that raises
leaves the book as it was.
-/
namespace EffectBroker
open Python

/-- The hash and the key of a record are those of its own request. -/
structure Pinned (hashes : Hashes) (tenantKeyProvider : TenantKeyProvider) (record : EffectRecord) :
    Prop where
  hash : requestHash hashes record.request.tool record.request.arguments record.contract.name
    record.contract.version = .ok record.requestHash
  key : ∃ tenantKey, tenantKeyProvider record.tenantId = .ok tenantKey ∧
    downstreamKey hashes tenantKey record.tenantId record.request.operationKey =
      .ok record.downstreamKey

theorem Pinned.same {hashes : Hashes} {tenantKeyProvider : TenantKeyProvider} {a b : EffectRecord}
    (h : Pinned hashes tenantKeyProvider a) (hsame : SameEffect a b) :
    Pinned hashes tenantKeyProvider b := by
  rw [hsame]
  exact ⟨h.hash, h.key⟩

/-- The receipt of an effect whose last success is known. -/
def receiptOf (record : EffectRecord) (metadata : Items) (at_ : Datetime) : Items :=
  [(text "effect_id", .str record.effectId), (text "status", .str EffectStatus.succeeded.value),
    (text "contract", .str record.contract.name),
    (text "contract_version", .str record.contract.version),
    (text "downstream_key", .str record.downstreamKey), (text "metadata", .dict metadata),
    (text "recorded_at", .str at_.isoformat)]

/-- The receipt of a ledger: what its last success says. -/
def EffectLedger.receipt (l : EffectLedger) : Option Items :=
  (InMemoryStore.lastSuccess l.events).map fun (metadata, at_) => receiptOf l.record metadata at_

/-- A page of a list; a negative limit is no limit. -/
def pageOf {α : Type} (list : List α) (limit offset : Int) : List α :=
  let rest := list.drop offset.toNat
  if limit < 0 then rest else rest.take limit.toNat

namespace Book

/-- The order in which effects are claimed and listed: the oldest first. -/
def before (l l' : EffectLedger) : Prop := listedBefore l.record l'.record

instance : DecidableRel before := fun l l' =>
  inferInstanceAs (Decidable (listedBefore l.record l'.record))

instance : Std.Total before where
  total l l' := by
    rcases lt_trichotomy l.record.createdAt l'.record.createdAt with h | h | h
    · exact .inl (.inl h)
    · rcases le_total l.record.effectId l'.record.effectId with hid | hid
      · exact .inl (.inr ⟨h, hid⟩)
      · exact .inr (.inr ⟨h.symm, hid⟩)
    · exact .inr (.inl h)

instance : IsTrans EffectLedger before where
  trans a b c hab hbc := by
    rcases hab with hab | ⟨hab, hid⟩ <;> rcases hbc with hbc | ⟨hbc, hid'⟩
    · exact .inl (hab.trans hbc)
    · exact .inl (hbc ▸ hab)
    · exact .inl (hab ▸ hbc)
    · exact .inr ⟨hab.trans hbc, le_trans hid hid'⟩

theorem id_eq_of_before {l l' : EffectLedger} (h : before l l') (h' : before l' l) : l.id = l'.id := by
  rcases h with h | ⟨h, hid⟩ <;> rcases h' with h' | ⟨h', hid'⟩
  · exact absurd (h.trans h') (lt_irrefl _)
  · exact absurd h (h' ▸ lt_irrefl _)
  · exact absurd h' (h ▸ lt_irrefl _)
  · exact le_antisymm hid hid'

/-- The ledgers in that order. -/
def queue (b : Book) : Book := b.insertionSort before

/-- The attempts of an effect. -/
def attemptsOf (b : Book) (e : Str) : List Attempt :=
  ((b.ledger e).map EffectLedger.attempts).getD []

/-- The events of an effect. -/
def eventsOf (b : Book) (e : Str) : List MemoryEvent :=
  ((b.ledger e).map EffectLedger.events).getD []

/-- The ledger of a tenant's own effect. -/
def ofTenant (b : Book) (tenantId e : Str) : Option EffectLedger :=
  (b.ledger e).filter (·.record.tenantId = tenantId)

/-- The ledgers that a claim takes from a queue. -/
def picks (queue : Book) (now : Datetime) (limit : Int) : Book :=
  (queue.filter (·.due now)).take limit.toNat

/-- Claim the ledgers with these ids. -/
def claimAll (b : Book) (ids : List Str) (workerId : Str) (now expiresAt : Datetime) : Book :=
  b.map fun l => if l.id ∈ ids then l.claimed workerId now expiresAt else l

/-- The ledger of an effect, if the record has the expected version. -/
def current (b : Book) (e : Str) (expectedVersion : Int) : Except Exc EffectLedger :=
  match b.ledger e with
  | none => .error (.unknownEffect e)
  | some l =>
    if (l.record.version : Int) ≠ expectedVersion then
      .error (.versionConflict (e ++ str " expected version " ++ decimalInt expectedVersion ++
        str ", found " ++ decimal l.record.version))
    else .ok l

/-- Reserve an effect: a new one, a replay, or a conflict. -/
def reserve (hashes : Hashes) (tenantKeyProvider : TenantKeyProvider) (now : Datetime) (uuid : Str)
    (tenantId : Str) (request : EffectRequest) (contract : EffectContract) (b : Book) :
    Except Exc (Reservation × Book) := do
  let record ← newRecord hashes tenantKeyProvider now uuid tenantId request contract
  match b.reserved tenantId request.operationKey with
  | some l =>
    if l.record.requestHash ≠ record.requestHash then
      .error (.payloadConflict request.operationKey l.record.requestHash record.requestHash)
    else .ok (⟨l.record, false, true⟩, b)
  | none =>
    if (b.ledger record.effectId).isSome then .error integrityError
    else .ok (⟨record, true, false⟩, b ++ [.reserved record])

/-- Claim up to `limit` due effects of a queue for a worker. -/
def claimDue (b queue : Book) (workerId : Str) (now : Datetime) (leaseFor : Timedelta)
    (limit : Int) : Except Exc (List EffectRecord × Book) :=
  if limit ≤ 0 then .ok ([], b)
  else
    match now.add leaseFor with
    | none => .error .overflowError
    | some expiresAt =>
      let picked := picks queue now limit
      .ok (picked.map (claimedRecord ·.record now),
        b.claimAll (picked.map EffectLedger.id) workerId now expiresAt)

/-- Start the next attempt. -/
def startAttempt (now : Datetime) (e : Str) (expectedVersion : Int) (workerId : Str) (b : Book) :
    Except Exc (Str × Book) := do
  let l ← b.current e expectedVersion
  return (attemptIdOf e (l.attempts.length + 1), b.modify e (·.attempted workerId now))

/-- Move an effect along an edge of the transition graph. -/
def transition (now : Datetime) (e : Str) (expectedVersion : Int) (target : EffectStatus)
    (data : Items) (b : Book) : Except Exc (EffectRecord × Book) := do
  let l ← b.current e expectedVersion
  assertTransition l.record.status target
  return (movedRecord l.record target now, b.modify e (·.moved target now data))

/-- One page of the effects of a tenant. -/
def list (b : Book) (tenantId : Str) (status : Option EffectStatus) (limit offset : Int) :
    List EffectRecord :=
  let ledgers := b.queue.filter fun l =>
    l.record.tenantId = tenantId && status.all (fun status => l.record.status = status)
  (pageOf ledgers limit offset).map EffectLedger.record

/-- The outcome of a call: what raises leaves the book as it was. -/
def outcome {α : Type} (b : Book) (reply : α → StoreValue) :
    Except Exc (α × Book) → Except Exc StoreValue × Book
  | .ok (value, after) => (.ok (reply value), after)
  | .error exc => (.error exc, b)

/-- Serve a call. -/
def serve (b : Book) (hashes : Hashes) (tenantKeyProvider : TenantKeyProvider) (c : TimedCall) :
    Except Exc StoreValue × Book :=
  match c.call with
  | .reserve tenantId request contract =>
    b.outcome .reservation
      (b.reserve hashes tenantKeyProvider c.now c.uuid tenantId request contract)
  | .claimDue workerId now leaseFor limit =>
    b.outcome .effects (b.claimDue b.queue workerId now leaseFor limit)
  | .startAttempt e expectedVersion workerId =>
    b.outcome .attemptId (b.startAttempt c.now e expectedVersion workerId)
  | .transition e expectedVersion target data =>
    b.outcome .effect (b.transition c.now e expectedVersion target data)
  | .get tenantId e => (.ok (.found ((b.ofTenant tenantId e).map EffectLedger.record)), b)
  | .list tenantId status limit offset => (.ok (.effects (b.list tenantId status limit offset)), b)
  | .receipt tenantId e => (.ok (.receipt ((b.ofTenant tenantId e).bind EffectLedger.receipt)), b)
  | .events e => (.ok (.events ((b.eventsOf e).map MemoryEvent.stored)), b)
  | .attemptCount e => (.ok (.number (b.attemptsOf e).length), b)
  | .count => (.ok (.number b.length), b)

/-! ## What a call does to the book -/

section
variable {hashes : Hashes} {tenantKeyProvider : TenantKeyProvider} {b : Book}

theorem current_ok {e : Str} {expectedVersion : Int} {l : EffectLedger} :
    b.current e expectedVersion = .ok l ↔
      b.ledger e = some l ∧ (l.record.version : Int) = expectedVersion := by
  unfold current
  cases b.ledger e with
  | none => exact ⟨fun h => (nomatch h), fun h => nomatch h.1⟩
  | some found =>
    by_cases hv : (found.record.version : Int) = expectedVersion
    · simp only [hv, ne_eq, not_true, if_false, Except.ok.injEq, Option.some.injEq]
      exact ⟨fun h => ⟨h, h ▸ hv⟩, fun h => h.1⟩
    · simp only [hv, ne_eq, not_false_eq_true, if_true, Option.some.injEq]
      exact ⟨fun h => (nomatch h), fun h => absurd (h.1 ▸ h.2) hv⟩

theorem mem_queue {l : EffectLedger} : l ∈ b.queue ↔ l ∈ b := List.mem_insertionSort _

/-- A filter of the queue is the queue of a filter. -/
theorem filter_queue (hb : b.Unique) (p : EffectLedger → Bool) :
    b.queue.filter p = queue (b.filter p) := by
  refine @List.Perm.eq_of_pairwise _ before _ _ (fun l l' hl hl' h h' => ?_)
    ((List.pairwise_insertionSort before b).filter p) (List.pairwise_insertionSort before _) ?_
  · have hmem := mem_queue.mp (List.mem_filter.mp hl).1
    have hmem' := (List.mem_filter.mp (mem_queue.mp hl')).1
    exact List.inj_on_of_nodup_map hb.ids hmem hmem' (id_eq_of_before h h')
  · exact ((List.perm_insertionSort before b).filter p).trans
      (List.perm_insertionSort before _).symm

theorem mem_picks {queue : Book} {now : Datetime} {limit : Int} {l : EffectLedger}
    (h : l ∈ picks queue now limit) : l ∈ queue ∧ l.due now = true :=
  List.mem_filter.mp (List.mem_of_mem_take h)

theorem picks_cons_due (queue : Book) {l : EffectLedger} {now : Datetime} {limit : Int}
    (hdue : l.due now = true) (hlimit : 0 < limit) :
    picks (l :: queue) now limit = l :: picks queue now (limit - 1) := by
  have hsucc : limit.toNat = (limit - 1).toNat + 1 := by omega
  unfold picks
  rw [List.filter_cons, if_pos hdue, hsucc, List.take_succ_cons]

theorem picks_cons_not_due (queue : Book) {l : EffectLedger} {now : Datetime}
    (hdue : l.due now = false) (limit : Int) :
    picks (l :: queue) now limit = picks queue now limit := by
  unfold picks
  rw [List.filter_cons, if_neg (by simp [hdue])]

theorem picks_of_nonpos {queue : Book} {now : Datetime} {limit : Int} (h : limit ≤ 0) :
    picks queue now limit = [] := by
  have hzero : limit.toNat = 0 := by omega
  rw [picks, hzero, List.take_zero]

/-- A claim takes ledgers that are due. -/
theorem step_claimAll (hb : b.Unique) {queue : Book} (hqueue : ∀ l ∈ queue, l ∈ b) {now : Datetime}
    {limit : Int} (workerId : Str) (expiresAt : Datetime) :
    Step b (b.claimAll ((picks queue now limit).map EffectLedger.id) workerId now expiresAt) := by
  refine .change fun l hl => ?_
  by_cases hm : l.id ∈ (picks queue now limit).map EffectLedger.id
  · obtain ⟨picked, hp, hid⟩ := List.mem_map.mp hm
    obtain ⟨hq, hdue⟩ := mem_picks hp
    have hfound := hb.ledger_of_mem (hqueue picked hq)
    rw [hid, hb.ledger_of_mem hl] at hfound
    cases hfound
    rw [if_pos hm]
    exact .inr (.claimed hdue)
  · rw [if_neg hm]
    exact .inl rfl

theorem reserve_ok {now : Datetime} {uuid tenantId : Str} {request : EffectRequest}
    {contract : EffectContract} {reservation : Reservation} {b' : Book}
    (h : b.reserve hashes tenantKeyProvider now uuid tenantId request contract =
      .ok (reservation, b')) :
    ∃ record, newRecord hashes tenantKeyProvider now uuid tenantId request contract = .ok record ∧
      ((∃ l, b.reserved tenantId request.operationKey = some l ∧
          l.record.requestHash = record.requestHash ∧ reservation = ⟨l.record, false, true⟩ ∧
          b' = b) ∨
        (b.reserved tenantId request.operationKey = none ∧ b.ledger record.effectId = none ∧
          reservation = ⟨record, true, false⟩ ∧ b' = b ++ [.reserved record])) := by
  obtain ⟨record, hrecord, h⟩ := bind_eq_ok.mp h
  refine ⟨record, hrecord, ?_⟩
  cases hfound : b.reserved tenantId request.operationKey with
  | some l =>
    simp only [hfound] at h
    split at h <;> cases h
    rename_i hhash
    exact .inl ⟨l, rfl, not_not.mp hhash, rfl, rfl⟩
  | none =>
    simp only [hfound] at h
    split at h <;> cases h
    rename_i hfresh
    exact .inr ⟨rfl, Option.not_isSome_iff_eq_none.mp hfresh, rfl, rfl⟩

theorem claimDue_ok {queue b' : Book} {workerId : Str} {now : Datetime} {leaseFor : Timedelta}
    {limit : Int} {claimed : List EffectRecord}
    (h : b.claimDue queue workerId now leaseFor limit = .ok (claimed, b')) :
    (limit ≤ 0 ∧ claimed = [] ∧ b' = b) ∨
      ∃ expiresAt, 0 < limit ∧ now.add leaseFor = some expiresAt ∧
        claimed = (picks queue now limit).map (claimedRecord ·.record now) ∧
        b' = b.claimAll ((picks queue now limit).map EffectLedger.id) workerId now expiresAt := by
  unfold claimDue at h
  by_cases hlimit : limit ≤ 0
  · rw [if_pos hlimit] at h
    cases h
    exact .inl ⟨hlimit, rfl, rfl⟩
  · rw [if_neg hlimit] at h
    cases hadd : now.add leaseFor with
    | none =>
      rw [hadd] at h
      cases h
    | some expiresAt =>
      rw [hadd] at h
      cases h
      exact .inr ⟨expiresAt, by omega, rfl, rfl, rfl⟩

theorem startAttempt_ok {now : Datetime} {e workerId attemptId : Str} {expectedVersion : Int}
    {b' : Book} (h : b.startAttempt now e expectedVersion workerId = .ok (attemptId, b')) :
    ∃ l, b.ledger e = some l ∧ (l.record.version : Int) = expectedVersion ∧
      attemptId = attemptIdOf e (l.attempts.length + 1) ∧
      b' = b.modify e (·.attempted workerId now) := by
  obtain ⟨l, hl, h⟩ := bind_eq_ok.mp h
  cases h
  obtain ⟨hfound, hversion⟩ := current_ok.mp hl
  exact ⟨l, hfound, hversion, rfl, rfl⟩

theorem transition_ok {now : Datetime} {e : Str} {expectedVersion : Int} {target : EffectStatus}
    {data : Items} {after : EffectRecord} {b' : Book}
    (h : b.transition now e expectedVersion target data = .ok (after, b')) :
    ∃ l, b.ledger e = some l ∧ (l.record.version : Int) = expectedVersion ∧
      isAllowed l.record.status target = true ∧ after = movedRecord l.record target now ∧
      b' = b.modify e (·.moved target now data) := by
  obtain ⟨l, hl, h⟩ := bind_eq_ok.mp h
  obtain ⟨⟨⟩, hallowed, h⟩ := bind_eq_ok.mp h
  cases h
  obtain ⟨hfound, hversion⟩ := current_ok.mp hl
  exact ⟨l, hfound, hversion, assertTransition_ok.mp hallowed, rfl, rfl⟩

theorem outcome_cases {α : Type} (reply : α → StoreValue) (result : Except Exc (α × Book)) :
    (b.outcome reply result).2 = b ∨ ∃ value, result = .ok (value, (b.outcome reply result).2) := by
  cases result with
  | error exc => exact .inl rfl
  | ok pair => exact .inr ⟨pair.1, rfl⟩

/-- **A call leaves the book, or takes it one step further.** -/
theorem serve_step (hb : b.Unique) (c : TimedCall) :
    (b.serve hashes tenantKeyProvider c).2 = b ∨ Step b (b.serve hashes tenantKeyProvider c).2 := by
  obtain ⟨call, now, uuid⟩ := c
  cases call with
  | reserve tenantId request contract =>
    rcases b.outcome_cases .reservation
      (b.reserve hashes tenantKeyProvider now uuid tenantId request contract) with h | ⟨value, h⟩
    · exact .inl h
    · obtain ⟨record, hrecord, ⟨l, -, -, -, h⟩ | ⟨hidentity, hid, -, h⟩⟩ := reserve_ok h
      · exact .inl h
      · refine .inr (h ▸ ?_)
        obtain ⟨digest, tenantKey, key, -, -, -, rfl⟩ := newRecord_ok hrecord
        exact .reserve hid hidentity rfl rfl
  | claimDue workerId now' leaseFor limit =>
    rcases b.outcome_cases .effects (b.claimDue b.queue workerId now' leaseFor limit) with
      h | ⟨value, h⟩
    · exact .inl h
    · obtain ⟨-, -, h⟩ | ⟨expiresAt, -, -, -, h⟩ := claimDue_ok h
      · exact .inl h
      · exact .inr (h ▸ step_claimAll hb (fun l hl => mem_queue.mp hl) workerId expiresAt)
  | startAttempt e expectedVersion workerId =>
    rcases b.outcome_cases .attemptId (b.startAttempt now e expectedVersion workerId) with
      h | ⟨value, h⟩
    · exact .inl h
    · obtain ⟨l, hl, -, -, h⟩ := startAttempt_ok h
      exact .inr (h ▸ step_modify hb hl .attempted)
  | transition e expectedVersion target data =>
    rcases b.outcome_cases .effect (b.transition now e expectedVersion target data) with
      h | ⟨value, h⟩
    · exact .inl h
    · obtain ⟨l, hl, -, hallowed, -, h⟩ := transition_ok h
      exact .inr (h ▸ step_modify hb hl (.moved hallowed))
  | get | list | receipt | events | attemptCount | count => exact .inl rfl

/-- What a call makes of the effects: they stay the same, or there is one more. -/
theorem serve_shape (c : TimedCall) :
    (∃ f : EffectLedger → EffectLedger, (b.serve hashes tenantKeyProvider c).2 = b.map f ∧
      ∀ l, SameEffect l.record (f l).record) ∨
    ∃ tenantId request contract record, c.call = .reserve tenantId request contract ∧
      newRecord hashes tenantKeyProvider c.now c.uuid tenantId request contract = .ok record ∧
      (b.serve hashes tenantKeyProvider c).2 = b ++ [.reserved record] := by
  have same : ∀ {b' : Book}, b' = b → ∃ f : EffectLedger → EffectLedger, b' = b.map f ∧
      ∀ l, SameEffect l.record (f l).record := fun h =>
    ⟨id, h.trans (List.map_id b).symm, fun l => .refl l.record⟩
  obtain ⟨call, now, uuid⟩ := c
  cases call with
  | reserve tenantId request contract =>
    rcases b.outcome_cases .reservation
      (b.reserve hashes tenantKeyProvider now uuid tenantId request contract) with h | ⟨value, h⟩
    · exact .inl (same h)
    · obtain ⟨record, hrecord, ⟨l, -, -, -, h⟩ | ⟨-, -, -, h⟩⟩ := reserve_ok h
      · exact .inl (same h)
      · exact .inr ⟨tenantId, request, contract, record, rfl, hrecord, h⟩
  | claimDue workerId now' leaseFor limit =>
    left
    rcases b.outcome_cases .effects (b.claimDue b.queue workerId now' leaseFor limit) with
      h | ⟨value, h⟩
    · exact same h
    · obtain ⟨-, -, h⟩ | ⟨expiresAt, -, -, -, h⟩ := claimDue_ok h
      · exact same h
      · refine ⟨_, h, fun l => ?_⟩
        split <;> rfl
  | startAttempt e expectedVersion workerId =>
    left
    rcases b.outcome_cases .attemptId (b.startAttempt now e expectedVersion workerId) with
      h | ⟨value, h⟩
    · exact same h
    · obtain ⟨l, -, -, -, h⟩ := startAttempt_ok h
      refine ⟨_, h, fun l => ?_⟩
      split <;> rfl
  | transition e expectedVersion target data =>
    left
    rcases b.outcome_cases .effect (b.transition now e expectedVersion target data) with
      h | ⟨value, h⟩
    · exact same h
    · obtain ⟨l, -, -, -, -, h⟩ := transition_ok h
      refine ⟨_, h, fun l => ?_⟩
      split <;> rfl
  | get | list | receipt | events | attemptCount | count => exact .inl (same rfl)

/-- What holds of new records, and of all records of an effect alike, keeps holding. -/
theorem serve_records {Q : EffectRecord → Prop} {c : TimedCall} (h : ∀ l ∈ b, Q l.record)
    (hsame : ∀ record record', SameEffect record record' → Q record → Q record')
    (hnew : ∀ tenantId request contract record, c.call = .reserve tenantId request contract →
      newRecord hashes tenantKeyProvider c.now c.uuid tenantId request contract = .ok record →
        Q record) :
    ∀ l ∈ (b.serve hashes tenantKeyProvider c).2, Q l.record := by
  rcases @serve_shape hashes tenantKeyProvider b c with
    ⟨f, hb, hf⟩ | ⟨tenantId, request, contract, record, hcall, hrecord, hb⟩
  · rw [hb]
    exact List.forall_mem_map.mpr fun l hl => hsame _ _ (hf l) (h l hl)
  · rw [hb]
    exact List.forall_mem_append.mpr ⟨h, List.forall_mem_singleton.mpr
      (hnew tenantId request contract record hcall hrecord)⟩

theorem mem_pageOf {α : Type} {list : List α} {limit offset : Int} {a : α}
    (h : a ∈ pageOf list limit offset) : a ∈ list := by
  unfold pageOf at h
  split at h
  · exact List.mem_of_mem_drop h
  · exact List.mem_of_mem_drop (List.mem_of_mem_take h)

theorem ofTenant_mem {tenantId e : Str} {l : EffectLedger} (h : b.ofTenant tenantId e = some l) :
    b.ledger e = some l ∧ l.record.tenantId = tenantId := by
  obtain ⟨hl, htenant⟩ := Option.filter_eq_some_iff.mp h
  exact ⟨hl, of_decide_eq_true htenant⟩

/-- What a call shows is in the book that it leaves. -/
theorem serve_shows {c : TimedCall} {value : StoreValue}
    (h : (b.serve hashes tenantKeyProvider c).1 = .ok value) :
    ∀ record ∈ value.records,
      ∃ l ∈ (b.serve hashes tenantKeyProvider c).2, l.record = record := by
  have outcome : ∀ {α : Type} {reply : α → StoreValue} {result : Except Exc (α × Book)},
      (b.outcome reply result).1 = .ok value →
        ∃ a, result = .ok (a, (b.outcome reply result).2) ∧ value = reply a := by
    intro α reply result hok
    cases result with
    | error exc => cases hok
    | ok pair =>
      cases hok
      exact ⟨pair.1, rfl, rfl⟩
  obtain ⟨call, now, uuid⟩ := c
  cases call with
  | reserve tenantId request contract =>
    obtain ⟨reservation, hok, rfl⟩ := outcome h
    refine List.forall_mem_singleton.mpr ?_
    obtain ⟨record, -, ⟨l, hl, -, rfl, hb⟩ | ⟨-, -, rfl, hb⟩⟩ := reserve_ok hok
    · exact ⟨l, hb.symm ▸ (mem_of_reserved hl).1, rfl⟩
    · exact ⟨.reserved record, hb.symm ▸ List.mem_append_right _ (List.mem_cons_self ..), rfl⟩
  | claimDue workerId now' leaseFor limit =>
    obtain ⟨claimed, hok, rfl⟩ := outcome h
    obtain ⟨-, rfl, -⟩ | ⟨expiresAt, -, -, rfl, hb⟩ := claimDue_ok hok
    · exact fun _ hr => nomatch hr
    · refine List.forall_mem_map.mpr fun l hl => ?_
      have hids : l.id ∈ (picks b.queue now' limit).map EffectLedger.id := List.mem_map_of_mem hl
      refine ⟨l.claimed workerId now' expiresAt, hb.symm ▸ List.mem_map.mpr ⟨l, ?_, if_pos hids⟩, rfl⟩
      exact mem_queue.mp (mem_picks hl).1
  | startAttempt e expectedVersion workerId =>
    obtain ⟨attemptId, -, rfl⟩ := outcome h
    exact fun _ hr => nomatch hr
  | transition e expectedVersion target data =>
    obtain ⟨after, hok, rfl⟩ := outcome h
    refine List.forall_mem_singleton.mpr ?_
    obtain ⟨l, hl, -, -, rfl, hb⟩ := transition_ok hok
    obtain ⟨hm, hid⟩ := mem_of_ledger hl
    exact ⟨l.moved target now data, hb.symm ▸ List.mem_map.mpr ⟨l, hm, if_pos hid⟩, rfl⟩
  | get tenantId e =>
    cases h
    intro record hr
    obtain ⟨l, hl, rfl⟩ := Option.map_eq_some_iff.mp (Option.mem_toList.mp hr)
    exact ⟨l, (mem_of_ledger (ofTenant_mem hl).1).1, rfl⟩
  | list tenantId status limit offset =>
    cases h
    refine List.forall_mem_map.mpr fun l hl => ⟨l, ?_, rfl⟩
    exact mem_queue.mp (List.mem_filter.mp (mem_pageOf hl)).1
  | receipt | events | attemptCount | count =>
    cases h
    exact fun _ hr => nomatch hr

end

end Book
end EffectBroker
