import EffectBroker.MemoryBook

/-!
# Leases exclude and lose nothing

A claim takes the first effects of the queue that are due, and a lease keeps other
workers away from them until it ends or the effect is moved.  Both stores do so while
their claims can be carried out: the in-memory store advances an effect before it finds
that the lease would end after the last date.
-/
namespace EffectBroker
open Python Concurrency Refinement

/-! ## Queues -/

/-- What a store shows of an effect that workers may claim. -/
structure QueueEntry where
  effectId : Str
  status : Str
  version : Nat
  deadline : Option Datetime

namespace QueueEntry

/-- The status is one of those that workers claim. -/
def Claimable (q : QueueEntry) : Prop :=
  q.status = EffectStatus.prepared.value ∨ q.status = EffectStatus.retryable.value

/-- The effect may be claimed at `now`: no lease ends later. -/
def Due (q : QueueEntry) (now : Datetime) : Prop :=
  q.Claimable ∧ ∀ deadline ∈ q.deadline, deadline ≤ now

instance (q : QueueEntry) : Decidable q.Claimable := by
  unfold Claimable
  infer_instance

instance (q : QueueEntry) (now : Datetime) : Decidable (q.Due now) := by
  unfold Due
  infer_instance

/-- The entry after a claim. -/
def claimed (q : QueueEntry) (expiresAt : Option Datetime) : QueueEntry :=
  { q with version := q.version + 1, deadline := expiresAt }

end QueueEntry

/-- The first `limit` entries of a queue that are due. -/
def firstDue (queue : List QueueEntry) (now : Datetime) (limit : Int) : List QueueEntry :=
  (queue.filter fun q => q.Due now).take limit.toNat

/-- Their effects. -/
def firstIds (queue : List QueueEntry) (now : Datetime) (limit : Int) : List Str :=
  (firstDue queue now limit).map QueueEntry.effectId

/-- A store with a queue in an order of its own, and all that it keeps of an effect. -/
structure LeaseStore (σ Rows : Type) where
  serve : TimedCall → σ → Except Exc StoreValue × σ
  queue : σ → List QueueEntry
  rows : σ → Str → Rows

namespace LeaseStore
variable {σ Rows : Type}

/-- A claim returns the first due effects, each once and one version later, and leaves the
others alone. -/
structure ClaimsDue (S : LeaseStore σ Rows) (s : σ) (c : TimedCall) (now : Datetime)
    (leaseFor : Timedelta) (limit : Int) : Prop where
  returned : ∃ records, (S.serve c s).1 = .ok (.effects records) ∧
    records.map (fun record => (record.effectId, record.version)) =
      (firstDue (S.queue s) now limit).map fun q => (q.effectId, q.version + 1)
  once : (firstIds (S.queue s) now limit).Nodup
  ends : firstDue (S.queue s) now limit ≠ [] → now.add leaseFor ≠ none
  advanced : S.queue (S.serve c s).2 = (S.queue s).map fun q =>
    if q.effectId ∈ firstIds (S.queue s) now limit then q.claimed (now.add leaseFor) else q
  others : ∀ e, e ∉ firstIds (S.queue s) now limit → S.rows (S.serve c s).2 e = S.rows s e

end LeaseStore

/-- A call has claimed an effect at a time, until another time. -/
def ClaimedUntil {σ : Type} (x : Served σ) (e : Str) (now expiresAt : Datetime) : Prop :=
  ∃ workerId leaseFor limit records, x.call.call = .claimDue workerId now leaseFor limit ∧
    x.reply = .ok (.effects records) ∧ e ∈ records.map EffectRecord.effectId ∧
    now.add leaseFor = some expiresAt

/-- A call has moved an effect. -/
def HasMoved {σ : Type} (x : Served σ) (e : Str) : Prop :=
  ∃ expectedVersion target data record,
    x.call.call = .transition e expectedVersion target data ∧ x.reply = .ok (.effect record)

/-- An effect is claimed again when its lease has ended, or when it has been moved. -/
def Exclusive {σ : Type} (log : List (Served σ)) : Prop :=
  ∀ newer y middle x older e now expiresAt now' expiresAt',
    log = newer ++ y :: (middle ++ x :: older) → ClaimedUntil x e now expiresAt →
    ClaimedUntil y e now' expiresAt' → now' < expiresAt → ∃ z ∈ middle, HasMoved z e

/-- What leases do in a run. -/
structure LeaseStore.LeasesHold {σ Rows : Type} (S : LeaseStore σ Rows) (init : σ)
    (log : List (Served σ)) (s : σ) : Prop where
  claims : Throughout (fun older x => ∀ workerId now leaseFor limit,
    x.call.call = .claimDue workerId now leaseFor limit →
      S.ClaimsDue (storeAfter init older) x.call now leaseFor limit) log
  exclusive : Exclusive log
  held : ∀ q ∈ S.queue s, q.deadline.isSome → q.Claimable
  complete : ∀ now (limit : Int), (∀ q ∈ S.queue s, ∀ deadline ∈ q.deadline, deadline ≤ now) →
    (S.queue s).length ≤ limit →
      firstDue (S.queue s) now limit = (S.queue s).filter fun q => q.Claimable

/-- A claim has no negative lease. -/
def TimedCall.LeaseNonneg (c : TimedCall) : Prop :=
  ∀ workerId now leaseFor limit, c.call = .claimDue workerId now leaseFor limit →
    Timedelta.zero ≤ leaseFor

/-! ## The general argument -/

namespace LeaseStore
variable {σ Rows : Type}

/-- What each call of a store does to leases, by an invariant of its states. -/
structure Lawful (S : LeaseStore σ Rows) (accepts : σ → TimedCall → Prop) (I : σ → Prop) :
    Prop where
  keeps : ∀ {s c}, I s → accepts s c → I (S.serve c s).2
  held : ∀ {s}, I s → ∀ q ∈ S.queue s, q.deadline.isSome → q.Claimable
  unique : ∀ {s}, I s → ((S.queue s).map QueueEntry.effectId).Nodup
  claims : ∀ {s c workerId now leaseFor limit}, I s → accepts s c →
    c.call = .claimDue workerId now leaseFor limit → S.ClaimsDue s c now leaseFor limit
  leaves : ∀ {s c}, I s → accepts s c →
    (∀ workerId now leaseFor limit, c.call ≠ .claimDue workerId now leaseFor limit) →
    ∀ q ∈ S.queue s, HasMoved ⟨c, (S.serve c s).1, (S.serve c s).2⟩ q.effectId ∨
      ∃ q' ∈ S.queue (S.serve c s).2, q'.effectId = q.effectId ∧ q'.deadline = q.deadline

/-- An effect has a lease that ends at `d` at the earliest. -/
def Guarded (S : LeaseStore σ Rows) (s : σ) (e : Str) (d : Datetime) : Prop :=
  ∃ q ∈ S.queue s, q.effectId = e ∧ ∃ deadline ∈ q.deadline, d ≤ deadline

section
variable {S : LeaseStore σ Rows} {accepts : σ → TimedCall → Prop} {I : σ → Prop} {init s : σ}
  {c : TimedCall} {e : Str} {d : Datetime} {log : List (Served σ)}

theorem mem_firstDue {queue : List QueueEntry} {now : Datetime} {limit : Int} {q : QueueEntry}
    (h : q ∈ firstDue queue now limit) : q ∈ queue ∧ q.Due now := by
  obtain ⟨hq, hdue⟩ := List.mem_filter.mp (List.mem_of_mem_take h)
  exact ⟨hq, of_decide_eq_true hdue⟩

/-- What a claim has claimed was due and is an entry with the new deadline. -/
theorem Lawful.claimedUntil (h : S.Lawful accepts I) (hs : I s) (hc : accepts s c)
    {now expiresAt : Datetime}
    (hclaimed : ClaimedUntil ⟨c, (S.serve c s).1, (S.serve c s).2⟩ e now expiresAt) :
    ∃ q ∈ S.queue s, q.effectId = e ∧ q.Due now ∧
      q.claimed (some expiresAt) ∈ S.queue (S.serve c s).2 := by
  obtain ⟨workerId, leaseFor, limit, records, hcall, hreply, he, hadd⟩ := hclaimed
  have hclaims := h.claims hs hc hcall
  obtain ⟨records', hreply', hrecords⟩ := hclaims.returned
  have hsame : records' = records := by
    have := hreply'.symm.trans hreply
    cases this
    rfl
  have hids : records.map EffectRecord.effectId = firstIds (S.queue s) now limit := by
    have hfst := congrArg (List.map Prod.fst) hrecords
    rw [hsame, List.map_map, List.map_map] at hfst
    exact hfst
  rw [hids] at he
  obtain ⟨q, hq, hid⟩ := List.mem_map.mp he
  obtain ⟨hmem, hdue⟩ := mem_firstDue hq
  refine ⟨q, hmem, hid, hdue, ?_⟩
  rw [hclaims.advanced, ← hadd]
  refine List.mem_map.mpr ⟨q, hmem, if_pos ?_⟩
  rw [hid]
  exact he

theorem Lawful.guarded_claimed (h : S.Lawful accepts I) (hs : I s) (hc : accepts s c)
    {now : Datetime} (hclaimed : ClaimedUntil ⟨c, (S.serve c s).1, (S.serve c s).2⟩ e now d) :
    S.Guarded (S.serve c s).2 e d := by
  obtain ⟨q, -, hid, -, hq⟩ := h.claimedUntil hs hc hclaimed
  exact ⟨_, hq, hid, d, rfl, le_rfl⟩

/-- An effect that is guarded until `d` is not claimed before. -/
theorem Lawful.not_before (h : S.Lawful accepts I) (hs : I s) (hc : accepts s c)
    (hguarded : S.Guarded s e d) {now expiresAt : Datetime}
    (hclaimed : ClaimedUntil ⟨c, (S.serve c s).1, (S.serve c s).2⟩ e now expiresAt) : d ≤ now := by
  obtain ⟨q, hq, hid, hdue, -⟩ := h.claimedUntil hs hc hclaimed
  obtain ⟨q', hq', hid', deadline, hdeadline, hle⟩ := hguarded
  have hsame : q' = q := List.inj_on_of_nodup_map (h.unique hs) hq' hq (hid'.trans hid.symm)
  rw [hsame] at hdeadline
  exact hle.trans (hdue.2 deadline hdeadline)

/-- A call that does not move an effect leaves it guarded. -/
theorem Lawful.guarded (h : S.Lawful accepts I) (hs : I s) (hc : accepts s c)
    (hnonneg : c.LeaseNonneg) (hguarded : S.Guarded s e d) :
    S.Guarded (S.serve c s).2 e d ∨ HasMoved ⟨c, (S.serve c s).1, (S.serve c s).2⟩ e := by
  obtain ⟨q, hq, rfl, deadline, hdeadline, hle⟩ := hguarded
  by_cases hcall : ∃ workerId now leaseFor limit, c.call = .claimDue workerId now leaseFor limit
  · left
    obtain ⟨workerId, now, leaseFor, limit, hcall⟩ := hcall
    have hclaims := h.claims hs hc hcall
    unfold Guarded
    rw [hclaims.advanced]
    by_cases htaken : q.effectId ∈ firstIds (S.queue s) now limit
    · -- the lease had ended, and the new one ends later still
      obtain ⟨q', hq', hid⟩ := List.mem_map.mp htaken
      obtain ⟨hmem, hdue⟩ := mem_firstDue hq'
      have hsame : q' = q := List.inj_on_of_nodup_map (h.unique hs) hmem hq hid
      rw [hsame] at hdue
      obtain ⟨expiresAt, hadd⟩ := Option.ne_none_iff_exists'.mp (hclaims.ends (List.ne_nil_of_mem hq'))
      refine ⟨q.claimed (some expiresAt), List.mem_map.mpr ⟨q, hq, ?_⟩, rfl, expiresAt, rfl, ?_⟩
      · rw [if_pos htaken, hadd]
      · have hstart := hdue.2 deadline hdeadline
        exact hle.trans (hstart.trans (Datetime.le_add hadd (hnonneg _ _ _ _ hcall)))
    · exact ⟨q, List.mem_map.mpr ⟨q, hq, if_neg htaken⟩, rfl, deadline, hdeadline, hle⟩
  · have hother : ∀ workerId now leaseFor limit, c.call ≠ .claimDue workerId now leaseFor limit :=
      fun workerId now leaseFor limit heq => hcall ⟨workerId, now, leaseFor, limit, heq⟩
    rcases h.leaves hs hc hother q hq with hmoved | ⟨q', hq', hid, hsame⟩
    · exact .inr hmoved
    · exact .inl ⟨q', hq', hid, deadline, hsame ▸ hdeadline, hle⟩

theorem Lawful.invariant (h : S.Lawful accepts I) (hrun : StoreRun S.serve init log s)
    (hinit : I init) (hcalls : EachCall (fun s c => c.LeaseNonneg ∧ accepts s c) init log) : I s :=
  StoreRun.invariant hrun hinit hcalls fun _ _ hs hc => h.keeps hs hc.2

/-- An effect stays guarded in a run that does not move it. -/
theorem Lawful.guarded_run (h : S.Lawful accepts I) {middle : List (Served σ)} {x : Served σ}
    {now : Datetime} (hrun : StoreRun S.serve init (middle ++ x :: log) s)
    (hinit : I init)
    (hcalls : EachCall (fun s c => c.LeaseNonneg ∧ accepts s c) init (middle ++ x :: log))
    (hclaimed : ClaimedUntil x e now d) (hmoved : ∀ z ∈ middle, ¬HasMoved z e) :
    S.Guarded s e d := by
  induction middle generalizing s with
  | nil =>
    cases hrun with
    | call c hrun =>
      obtain ⟨hcall, hcalls⟩ := hcalls
      rw [hrun.storeAfter] at hcall
      have hs := h.invariant hrun hinit hcalls
      exact h.guarded_claimed hs hcall.2 hclaimed
  | cons z middle ih =>
    obtain ⟨hz, hmiddle⟩ := List.forall_mem_cons.mp hmoved
    cases hrun with
    | call c hrun =>
      obtain ⟨hcall, hcalls⟩ := hcalls
      rw [hrun.storeAfter] at hcall
      have hs := h.invariant hrun hinit hcalls
      rcases h.guarded hs hcall.2 hcall.1 (ih hrun hcalls hmiddle) with hguarded | hmove
      · exact hguarded
      · exact absurd hmove hz

theorem Lawful.exclusive (h : S.Lawful accepts I) (hrun : StoreRun S.serve init log s)
    (hinit : I init) (hcalls : EachCall (fun s c => c.LeaseNonneg ∧ accepts s c) init log) :
    Exclusive log := by
  rintro newer y middle x older e now expiresAt now' expiresAt' rfl hx hy hlt
  by_contra hnone
  have hmoved : ∀ z ∈ middle, ¬HasMoved z e := fun z hz hmove => hnone ⟨z, hz, hmove⟩
  obtain ⟨s', hrun'⟩ := hrun.older
  have hcalls' := Throughout.older hcalls
  cases hrun' with
  | call c hrun' =>
    obtain ⟨hcall, hcalls'⟩ := hcalls'
    rw [hrun'.storeAfter] at hcall
    have hs := h.invariant hrun' hinit hcalls'
    have hguarded := h.guarded_run hrun' hinit hcalls' hx hmoved
    have hle := h.not_before hs hcall.2 hguarded hy
    exact absurd hlt (not_lt.mpr hle)

theorem firstDue_all {queue : List QueueEntry} {now : Datetime} {limit : Int}
    (hends : ∀ q ∈ queue, ∀ deadline ∈ q.deadline, deadline ≤ now)
    (hlimit : queue.length ≤ limit) :
    firstDue queue now limit = queue.filter fun q => q.Claimable := by
  have hsame : queue.filter (fun q => q.Due now) = queue.filter fun q => q.Claimable := by
    refine List.filter_congr fun q hq => decide_eq_decide.mpr ?_
    exact and_iff_left (hends q hq)
  have hlength : (queue.filter fun q => q.Due now).length ≤ limit.toNat := by
    have := List.length_filter_le (fun q => decide (q.Due now)) queue
    omega
  unfold firstDue
  rw [List.take_of_length_le hlength, hsame]

/-- **In a lawful store leases exclude other workers and lose nothing.** -/
theorem Lawful.leasesHold (h : S.Lawful accepts I) (hrun : StoreRun S.serve init log s)
    (hinit : I init) (hcalls : EachCall (fun s c => c.LeaseNonneg ∧ accepts s c) init log) :
    S.LeasesHold init log s := by
  have hs := h.invariant hrun hinit hcalls
  refine ⟨?_, h.exclusive hrun hinit hcalls, h.held hs, fun now limit => firstDue_all⟩
  · clear hs
    induction hrun with
    | start => trivial
    | @call log s c hrun ih =>
      obtain ⟨hcall, hcalls⟩ := hcalls
      refine ⟨fun workerId now leaseFor limit hclaim => ?_, ih hcalls⟩
      rw [hrun.storeAfter] at hcall ⊢
      have hs := h.invariant hrun hinit hcalls
      exact h.claims hs hcall.2 hclaim

end

end LeaseStore

/-! ## The queue of a book -/

/-- The entry of a ledger. -/
def EffectLedger.entry (l : EffectLedger) : QueueEntry :=
  ⟨l.id, l.record.status.value, l.record.version, l.lease.map Lease.expiresAt⟩

theorem EffectLedger.claimable_entry (l : EffectLedger) :
    l.entry.Claimable ↔ l.record.status.isClaimable = true := by
  rw [EffectStatus.isClaimable_iff]
  exact or_congr EffectStatus.value_injective.eq_iff EffectStatus.value_injective.eq_iff

theorem EffectLedger.due_entry (l : EffectLedger) (now : Datetime) :
    l.entry.Due now ↔ l.due now = true := by
  have hlease : (∀ deadline ∈ l.entry.deadline, deadline ≤ now) ↔
      l.lease.all (fun lease => lease.expiresAt ≤ now) = true := by
    unfold EffectLedger.entry
    cases l.lease with
    | none => simp
    | some lease => simp
  unfold QueueEntry.Due
  rw [l.claimable_entry, hlease]
  exact Bool.and_eq_true_iff.symm

theorem EffectLedger.Sound.held {l : EffectLedger} (h : l.Sound)
    (hlease : l.entry.deadline.isSome) : l.entry.Claimable := by
  refine l.claimable_entry.mpr (h.lease ?_)
  rwa [EffectLedger.entry, Option.isSome_map] at hlease

namespace Book
variable {b queue : Book} {workerId : Str} {now : Datetime} {leaseFor : Timedelta} {limit : Int}

theorem firstDue_entry (queue : Book) (now : Datetime) (limit : Int) :
    firstDue (queue.map EffectLedger.entry) now limit =
      (picks queue now limit).map EffectLedger.entry := by
  have hdue : queue.filter ((fun q => decide (q.Due now)) ∘ EffectLedger.entry) =
      queue.filter (·.due now) := by
    refine List.filter_congr fun l _ => ?_
    show decide (l.entry.Due now) = l.due now
    rw [Bool.eq_iff_iff, decide_eq_true_iff, l.due_entry]
  unfold firstDue picks
  rw [List.filter_map, ← List.map_take, hdue]

theorem firstIds_entry (queue : Book) (now : Datetime) (limit : Int) :
    firstIds (queue.map EffectLedger.entry) now limit =
      (picks queue now limit).map EffectLedger.id := by
  unfold firstIds
  rw [firstDue_entry, List.map_map]
  rfl

/-- A book in which the first due ledgers of a queue have been claimed. -/
structure FirstClaimed (b queue : Book) (now : Datetime) (leaseFor : Timedelta) (limit : Int)
    (claimed : List EffectRecord) (b' : Book) : Prop where
  records : claimed = (picks queue now limit).map (claimedRecord ·.record now)
  book : ∃ workerId expiresAt,
    b' = b.claimAll ((picks queue now limit).map EffectLedger.id) workerId now expiresAt ∧
      (picks queue now limit ≠ [] → now.add leaseFor = some expiresAt)

theorem FirstClaimed.idle (h : picks queue now limit = []) :
    FirstClaimed b queue now leaseFor limit [] b := by
  constructor
  · rw [h]
    rfl
  · refine ⟨[], now, ?_, fun hne => absurd h hne⟩
    rw [h, List.map_nil, claimAll_nil]

theorem firstClaimed_of_claimDue {claimed : List EffectRecord} {b' : Book}
    (h : b.claimDue queue workerId now leaseFor limit = .ok (claimed, b')) :
    FirstClaimed b queue now leaseFor limit claimed b' := by
  obtain ⟨hlimit, rfl, rfl⟩ | ⟨expiresAt, -, hadd, hclaimed, hb⟩ := claimDue_ok h
  · exact .idle (picks_of_nonpos hlimit)
  · exact ⟨hclaimed, workerId, expiresAt, hb, fun _ => hadd⟩

theorem picks_id_nodup (hids : (queue.map EffectLedger.id).Nodup) :
    ((picks queue now limit).map EffectLedger.id).Nodup := by
  have hsub : (picks queue now limit).Sublist queue :=
    (List.take_sublist _ _).trans List.filter_sublist
  exact (hsub.map _).nodup hids

theorem ledger_claimAll {ids : List Str} {expiresAt : Datetime} {e : Str} (he : e ∉ ids) :
    (b.claimAll ids workerId now expiresAt).ledger e = b.ledger e := by
  unfold claimAll ledger
  induction b with
  | nil => rfl
  | cons l b ih =>
    rw [List.map_cons]
    by_cases hid : l.id = e
    · have hnot : l.id ∉ ids := hid ▸ he
      rw [if_neg hnot, List.find?_cons_of_pos (by simpa using hid),
        List.find?_cons_of_pos (by simpa using hid)]
    · have hsame : (if l.id ∈ ids then l.claimed workerId now expiresAt else l).id = l.id := by
        split <;> rfl
      rw [List.find?_cons_of_neg (by simpa [hsame] using hid),
        List.find?_cons_of_neg (by simpa using hid), ih]

/-- A claim changes entries, and not their order. -/
theorem entry_claimAll {ids : List Str} {expiresAt : Datetime} (l : EffectLedger) :
    EffectLedger.entry (if l.id ∈ ids then l.claimed workerId now expiresAt else l) =
      if l.id ∈ ids then l.entry.claimed (some expiresAt) else l.entry := by
  split <;> rfl

theorem queue_claimAll (ids : List Str) (workerId : Str) (now expiresAt : Datetime) :
    (b.claimAll ids workerId now expiresAt).queue =
      b.queue.claimAll ids workerId now expiresAt := by
  unfold claimAll queue
  refine (List.map_insertionSort before before _ b fun l _ l' _ => ?_).symm
  show listedBefore l.record l'.record ↔ listedBefore _ _
  split <;> split <;> rfl

/-- The entries after a claim. -/
theorem FirstClaimed.advanced {claimed : List EffectRecord} {b' : Book}
    (h : FirstClaimed b queue now leaseFor limit claimed b') {entries : Book}
    (hentries : ∀ {workerId expiresAt},
      b' = b.claimAll ((picks queue now limit).map EffectLedger.id) workerId now expiresAt →
        entries = queue.claimAll ((picks queue now limit).map EffectLedger.id) workerId now
          expiresAt) :
    entries.map EffectLedger.entry = (queue.map EffectLedger.entry).map fun q =>
      if q.effectId ∈ firstIds (queue.map EffectLedger.entry) now limit then
        q.claimed (now.add leaseFor)
      else q := by
  obtain ⟨workerId, expiresAt, hb, hends⟩ := h.book
  rw [hentries hb, firstIds_entry, List.map_map]
  unfold claimAll
  rw [List.map_map]
  refine List.map_congr_left fun l _ => ?_
  refine (entry_claimAll l).trans ?_
  show _ = if l.entry.effectId ∈ _ then l.entry.claimed (now.add leaseFor) else l.entry
  by_cases hid : l.id ∈ (picks queue now limit).map EffectLedger.id
  · have hne : picks queue now limit ≠ [] := fun hnil => by
      rw [hnil] at hid
      cases hid
    have hentry : l.entry.effectId ∈ (picks queue now limit).map EffectLedger.id := hid
    rw [if_pos hid, if_pos hentry, hends hne]
  · have hentry : l.entry.effectId ∉ (picks queue now limit).map EffectLedger.id := hid
    rw [if_neg hid, if_neg hentry]

theorem FirstClaimed.returned {claimed : List EffectRecord} {b' : Book}
    (h : FirstClaimed b queue now leaseFor limit claimed b') :
    claimed.map (fun record => (record.effectId, record.version)) =
      (firstDue (queue.map EffectLedger.entry) now limit).map fun q =>
        (q.effectId, q.version + 1) := by
  rw [h.records, firstDue_entry, List.map_map, List.map_map]
  rfl

theorem FirstClaimed.ends {claimed : List EffectRecord} {b' : Book}
    (h : FirstClaimed b queue now leaseFor limit claimed b')
    (hne : firstDue (queue.map EffectLedger.entry) now limit ≠ []) : now.add leaseFor ≠ none := by
  obtain ⟨workerId, expiresAt, -, hends⟩ := h.book
  rw [firstDue_entry] at hne
  rw [hends fun hnil => hne (by rw [hnil]; rfl)]
  exact Option.some_ne_none _

/-- A call that is no claim moves an effect, or leaves its lease alone. -/
theorem serve_leaves {hashes : Hashes} {tenantKeyProvider : TenantKeyProvider} {c : TimedCall}
    (hc : ∀ workerId now leaseFor limit, c.call ≠ .claimDue workerId now leaseFor limit)
    {l : EffectLedger} (hl : l ∈ b) :
    HasMoved ⟨c, (b.serve hashes tenantKeyProvider c).1, (b.serve hashes tenantKeyProvider c).2⟩
        l.id ∨
      ∃ l' ∈ (b.serve hashes tenantKeyProvider c).2, l'.id = l.id ∧ l'.lease = l.lease := by
  have same : ∀ {b' : Book}, b' = b → ∃ l' ∈ b', l'.id = l.id ∧ l'.lease = l.lease :=
    fun h => ⟨l, h ▸ hl, rfl, rfl⟩
  obtain ⟨call, now, uuid⟩ := c
  cases call with
  | reserve tenantId request contract =>
    right
    rcases b.outcome_cases .reservation
      (b.reserve hashes tenantKeyProvider now uuid tenantId request contract) with h | ⟨value, h⟩
    · exact same h
    · obtain ⟨record, -, ⟨_, -, -, -, h⟩ | ⟨-, -, -, h⟩⟩ := reserve_ok h
      · exact same h
      · exact ⟨l, h.symm ▸ List.mem_append_left _ hl, rfl, rfl⟩
  | claimDue workerId now' leaseFor limit => exact absurd rfl (hc workerId now' leaseFor limit)
  | startAttempt e expectedVersion workerId =>
    right
    rcases b.outcome_cases .attemptId (b.startAttempt now e expectedVersion workerId) with
      h | ⟨value, h⟩
    · exact same h
    · obtain ⟨_, -, -, -, h⟩ := startAttempt_ok h
      have hmem : (if l.id = e then l.attempted workerId now else l) ∈
          b.modify e (·.attempted workerId now) := List.mem_map_of_mem hl
      refine ⟨_, h.symm ▸ hmem, ?_, ?_⟩
      · split <;> rfl
      · split <;> rfl
  | transition e expectedVersion target data =>
    cases hresult : b.transition now e expectedVersion target data with
    | error exc =>
      right
      refine same ?_
      show (b.outcome .effect (b.transition now e expectedVersion target data)).2 = b
      rw [hresult]
      rfl
    | ok result =>
      obtain ⟨after, b'⟩ := result
      obtain ⟨_, -, -, -, -, h⟩ := transition_ok hresult
      have hserve : b.serve hashes tenantKeyProvider
          ⟨.transition e expectedVersion target data, now, uuid⟩ = (.ok (.effect after), b') := by
        show b.outcome .effect (b.transition now e expectedVersion target data) = _
        rw [hresult]
        rfl
      rw [hserve]
      by_cases he : l.id = e
      · exact .inl ⟨expectedVersion, target, data, after, by rw [he], rfl⟩
      · refine .inr ⟨l, h.symm ▸ List.mem_map.mpr ⟨l, hl, if_neg he⟩, rfl, rfl⟩
  | get | list | receipt | events | attemptCount | count => exact .inr (same rfl)

end Book

/-! ## The in-memory store -/

namespace InMemoryStore
variable {s : InMemoryStore} {c : TimedCall}

/-- The effects in the order in which they were reserved. -/
def queue (s : InMemoryStore) : List QueueEntry :=
  s.records.items.map fun item => ⟨item.1, item.2.status.value, item.2.version,
    (s.leases.get? item.1).map Lease.expiresAt⟩

/-- The in-memory store and its queue. -/
def leaseStore : LeaseStore InMemoryStore (Option EffectLedger) :=
  ⟨InMemoryStore.serve, queue, ledgerOf⟩

theorem Kept.queue_eq (h : s.Kept) : s.queue = s.book.map EffectLedger.entry := by
  unfold queue book
  rw [List.map_map]
  refine List.map_congr_left fun item hm => ?_
  have hid := h.effectId _ _ (Dict.get?_of_mem_items hm)
  show _ = (⟨item.2.effectId, _, _, _⟩ : QueueEntry)
  rw [hid]
  rfl

/-- A claim that does not overflow claims the first due ledgers. -/
theorem Kept.claimDue_first (h : s.Kept) {workerId : Str} {now : Datetime} {leaseFor : Timedelta}
    {limit : Int} (hcall : c.call = .claimDue workerId now leaseFor limit)
    (hc : ¬s.LeaseOverflows c) : ∃ claimed, (serve c s).1 = .ok (.effects claimed) ∧
      Book.FirstClaimed s.book s.book now leaseFor limit claimed (serve c s).2.book := by
  have hserve : serve c s = ((s.claimDue workerId now leaseFor limit).1.map .effects,
      (s.claimDue workerId now leaseFor limit).2) := by
    rw [serve, hcall]
  rw [hserve]
  by_cases hadd : 0 < limit → now.add leaseFor ≠ none
  · have hbook := claimDue_book h workerId hadd
    cases hresult : s.book.claimDue s.book workerId now leaseFor limit with
    | error exc =>
      unfold Book.claimDue at hresult
      by_cases hlimit : limit ≤ 0
      · rw [if_pos hlimit] at hresult
        cases hresult
      · obtain ⟨expiresAt, hexpires⟩ := Option.ne_none_iff_exists'.mp (hadd (by omega))
        rw [if_neg hlimit, hexpires] at hresult
        cases hresult
    | ok result =>
      obtain ⟨claimed, b'⟩ := result
      rw [hresult] at hbook
      obtain ⟨hreply, hafter⟩ := Prod.mk.inj hbook
      exact ⟨claimed, hreply, hafter ▸ Book.firstClaimed_of_claimDue hresult⟩
  · -- the lease would overflow, and no effect is due
    obtain ⟨hlimit, hnone⟩ := Classical.not_imp.mp hadd
    have hnone : now.add leaseFor = none := not_not.mp hnone
    have hidle : s.picks now limit.toNat s.records.items = [] := by
      refine List.eq_nil_iff_forall_not_mem.mpr fun item hitem => hc ?_
      rw [LeaseOverflows, hcall]
      have hmem := List.mem_filter.mp (List.mem_of_mem_take hitem)
      exact ⟨hlimit, hnone, item, hmem.1, hmem.2⟩
    have hzero : (limit - ([] : List EffectRecord).length).toNat = limit.toNat := by simp
    have hclaim : s.claimDue workerId now leaseFor limit = (.ok [], s) := by
      unfold claimDue
      rw [if_neg (by omega), claimLoop_overflow hnone, hzero, hidle]
    rw [hclaim]
    refine ⟨[], rfl, .idle ?_⟩
    rw [picks_book, hidle]
    rfl

theorem Kept.claimsDue (h : s.Kept) {workerId : Str} {now : Datetime} {leaseFor : Timedelta}
    {limit : Int} (hcall : c.call = .claimDue workerId now leaseFor limit)
    (hc : ¬s.LeaseOverflows c) : leaseStore.ClaimsDue s c now leaseFor limit := by
  obtain ⟨claimed, hreply, hfirst⟩ := h.claimDue_first hcall hc
  have hkept := (serve_spec h c).1
  have hqueue : leaseStore.queue s = s.book.map EffectLedger.entry := h.queue_eq
  refine ⟨⟨claimed, hreply, ?_⟩, ?_, ?_, ?_, ?_⟩ <;> rw [hqueue]
  · exact hfirst.returned
  · rw [Book.firstIds_entry]
    exact Book.picks_id_nodup h.unique.ids
  · exact hfirst.ends
  · exact hkept.queue_eq.trans (hfirst.advanced fun hb => hb)
  · intro e he
    obtain ⟨workerId, expiresAt, hb, -⟩ := hfirst.book
    show (serve c s).2.ledgerOf e = s.ledgerOf e
    rw [← hkept.ledger_book, ← h.ledger_book, hb]
    rw [Book.firstIds_entry] at he
    exact Book.ledger_claimAll he

theorem Kept.leaves (h : s.Kept) (hpinned : s.AllPinned)
    (hc : ∀ workerId now leaseFor limit, c.call ≠ .claimDue workerId now leaseFor limit)
    {q : QueueEntry} (hq : q ∈ s.queue) :
    HasMoved ⟨c, (serve c s).1, (serve c s).2⟩ q.effectId ∨
      ∃ q' ∈ (serve c s).2.queue, q'.effectId = q.effectId ∧ q'.deadline = q.deadline := by
  have hkept := (serve_spec h c).1
  -- a call that writes does what it does to the book
  have written : ∀ c' : TimedCall, c'.call = c.call → ((serve c s).1, (serve c s).2.book) =
      s.book.serve s.hashes s.tenantKeyProvider c' →
      HasMoved ⟨c, (serve c s).1, (serve c s).2⟩ q.effectId ∨
        ∃ q' ∈ (serve c s).2.queue, q'.effectId = q.effectId ∧ q'.deadline = q.deadline := by
    intro c' hcall hbook
    obtain ⟨hreply, hafter⟩ := Prod.mk.inj hbook
    rw [h.queue_eq] at hq
    obtain ⟨l, hl, rfl⟩ := List.mem_map.mp hq
    have hleaves := @Book.serve_leaves s.book s.hashes s.tenantKeyProvider c'
      (fun workerId now leaseFor limit => hcall ▸ hc workerId now leaseFor limit) l hl
    rcases hleaves with ⟨version, target, data, record, hmove, hok⟩ | ⟨l', hl', hid, hlease⟩
    · exact .inl ⟨version, target, data, record, hcall.symm.trans hmove, hreply.trans hok⟩
    · refine .inr ⟨l'.entry, ?_, hid, congrArg (Option.map Lease.expiresAt) hlease⟩
      rw [hkept.queue_eq, hafter]
      exact List.mem_map_of_mem hl'
  obtain ⟨call, now, uuid⟩ := c
  cases call with
  | reserve tenantId request contract =>
    exact written ⟨_, now, zeroPadded 6 s.nextEffectId⟩ rfl
      (reserve_book h hpinned now tenantId request contract)
  | claimDue workerId now' leaseFor limit => exact absurd rfl (hc workerId now' leaseFor limit)
  | startAttempt e expectedVersion workerId =>
    exact written ⟨_, now, uuid⟩ rfl (startAttempt_book h now e expectedVersion workerId)
  | transition e expectedVersion target data =>
    exact written ⟨_, now, uuid⟩ rfl (transition_book h now e expectedVersion target data)
  | get | list | receipt | events | attemptCount | count => exact .inr ⟨q, hq, rfl, rfl⟩

theorem lawful : leaseStore.Lawful (fun s c => ¬s.LeaseOverflows c)
    fun s => s.Sound ∧ s.AllPinned where
  keeps hs hc := ⟨hs.1.serve hc, hs.2.serve hs.1.toKept _⟩
  held hs q hq hdeadline := by
    rw [show leaseStore.queue _ = _ from hs.1.toKept.queue_eq] at hq
    obtain ⟨l, hl, rfl⟩ := List.mem_map.mp hq
    exact (hs.1.good.sound l hl).held hdeadline
  unique hs := by
    rw [show leaseStore.queue _ = _ from hs.1.toKept.queue_eq, List.map_map]
    exact hs.1.toKept.unique.ids
  claims hs hc hcall := hs.1.toKept.claimsDue hcall hc
  leaves hs _ hcall q hq := hs.1.toKept.leaves hs.2 hcall hq

end InMemoryStore

/-! ## The SQLite store -/

/-- The entry of a row. -/
def SqliteEffectRow.entry (row : SqliteEffectRow) : QueueEntry :=
  ⟨row.effectId, row.status, row.version, row.leaseUntil.bind Datetime.fromisoformat⟩

/-- The rows of an effect in the three tables. -/
abbrev SqliteRows := List SqliteEffectRow × List SqliteAttemptRow × List SqliteEventRow

theorem entry_effectRow (l : EffectLedger) : (effectRow l).entry = l.entry := by
  unfold SqliteEffectRow.entry EffectLedger.entry
  refine congrArg _ ?_
  show (l.lease.map fun lease => lease.expiresAt.isoformat).bind _ = l.lease.map Lease.expiresAt
  cases l.lease with
  | none => rfl
  | some lease => rw [Option.map_some, Option.bind_some, Datetime.fromisoformat_isoformat,
      Option.map_some]

namespace SqliteStore
variable {secrets : Secrets} {s : SqliteStore} {b : Book} {c : TimedCall}

/-- The effects, the oldest first. -/
def queue (s : SqliteStore) : List QueueEntry :=
  (s.effects.insertionSort sqliteBefore).map SqliteEffectRow.entry

/-- The rows of an effect. -/
def rows (s : SqliteStore) (e : Str) : SqliteRows :=
  (s.effects.filter (·.effectId = e), s.attempts.filter (·.effectId = e),
    s.events.filter (·.effectId = e))

/-- The SQLite store and its queue. -/
def leaseStore : LeaseStore SqliteStore SqliteRows := ⟨SqliteStore.serve, queue, rows⟩

/-- A claim that can say until when, for a worker with a name that can be stored, of rows
that can be read and have room for one more event. -/
def CanClaim (s : SqliteStore) (c : TimedCall) : Prop :=
  match c.call with
  | .claimDue workerId now leaseFor limit => 0 < limit → now.add leaseFor ≠ none ∧
    ∀ row ∈ s.effects, row.effectId ∈ firstIds s.queue now limit →
      Python.Encodable workerId ∧ Python.Encodable row.effectId ∧ (∃ record, row.toRecord = .ok record) ∧
        (s.events.filter (·.effectId = row.effectId)).length + 1 < 2 ^ 63
  | _ => True

theorem Holds.queue_eq (h : s.Holds secrets b) : s.queue = b.queue.map EffectLedger.entry := by
  unfold queue
  rw [h.effects, sort_effectRow, List.map_map]
  exact List.map_congr_left fun l _ => entry_effectRow l

theorem Holds.rows_eq {s' : SqliteStore} {b' : Book} {e : Str} (h : s.Holds secrets b)
    (h' : s'.Holds secrets b')
    (hledger : b'.ledger e = b.ledger e) : s'.rows e = s.rows e := by
  have heffects : ∀ {s : SqliteStore} {b : Book}, s.Holds secrets b →
      s.effects.filter (·.effectId = e) = (b.ledger e).toList.map effectRow := by
    intro s b h
    rw [h.effects, List.filter_map]
    refine congrArg (List.map effectRow) ?_
    cases hl : b.ledger e with
    | none =>
      refine List.filter_eq_nil_iff.mpr fun l hm hid => ?_
      exact Book.ledger_eq_none.mp hl l hm (of_decide_eq_true hid)
    | some l =>
      obtain ⟨hm, rfl⟩ := Book.mem_of_ledger hl
      exact Book.filter_of_nodup h.good.ids hm
  unfold rows
  rw [heffects h, heffects h', h.attempts, h'.attempts, h.events, h'.events]
  unfold Book.attemptsOf Book.eventsOf
  rw [hledger]

/-- A claim that can be carried out claims the first due ledgers. -/
theorem Holds.claimDue_first (h : s.Holds secrets b) {workerId : Str} {now : Datetime}
    {leaseFor : Timedelta} {limit : Int} (hcall : c.call = .claimDue workerId now leaseFor limit)
    (hc : s.CanClaim c) : ∃ reads claimed b', (SqliteStore.serve c s).1 = .ok (.effects reads) ∧
      List.Forall₂ Reads reads claimed ∧ (SqliteStore.serve c s).2.Holds secrets b' ∧
      Book.FirstClaimed b b.queue now leaseFor limit claimed b' := by
  have hserve : SqliteStore.serve c s =
      s.committed .effects (s.claimDue workerId now leaseFor limit) := by
    rw [SqliteStore.serve, hcall]
  rw [CanClaim, hcall] at hc
  have hfit : ∀ l ∈ Book.picks b.queue now limit, l.CanClaim workerId := by
    intro l hl
    have hm := Book.mem_queue.mp (Book.mem_picks hl).1
    have hlimit : 0 < limit := by
      by_contra hnot
      rw [Book.picks_of_nonpos (by omega)] at hl
      cases hl
    have hid : (effectRow l).effectId ∈ firstIds s.queue now limit := by
      rw [h.queue_eq, Book.firstIds_entry]
      exact List.mem_map_of_mem hl
    have hrow : effectRow l ∈ s.effects := h.effects ▸ List.mem_map_of_mem hm
    obtain ⟨hworker, hnamed, ⟨record, hread⟩, hevents⟩ := (hc hlimit).2 _ hrow hid
    rw [toRecord_effectRow (h.arguments l hm)] at hread
    have hlength : (s.events.filter (·.effectId = l.id)).length = l.events.length := by
      rw [h.events, List.length_map, Book.eventsOf, h.good.ledger_of_mem hm]
      rfl
    refine ⟨⟨record, hread⟩, hnamed, ?_, hworker⟩
    rw [← hlength]
    exact hevents
  have hagrees := agrees_claimDue h workerId now leaseFor limit fun _ : True => hfit
  have hbook : ∃ result, b.claimDue b.queue workerId now leaseFor limit = .ok result := by
    unfold Book.claimDue
    by_cases hlimit : limit ≤ 0
    · exact ⟨_, if_pos hlimit⟩
    · obtain ⟨expiresAt, hadd⟩ := Option.ne_none_iff_exists'.mp (hc (by omega)).1
      rw [if_neg hlimit, hadd]
      exact ⟨_, rfl⟩
  obtain ⟨⟨claimed, b'⟩, hresult⟩ := hbook
  rw [hresult] at hagrees
  rw [hserve]
  generalize s.claimDue workerId now leaseFor limit = result at hagrees
  cases hagrees with
  | ok hpair => exact ⟨_, claimed, b', rfl, hpair.1, hpair.2, Book.firstClaimed_of_claimDue hresult⟩
  | unfit hnot => exact absurd trivial hnot

/-- What is read of a record has its id and its version. -/
theorem map_of_reads {reads claimed : List EffectRecord} (h : List.Forall₂ Reads reads claimed) :
    reads.map (fun record => (record.effectId, record.version)) =
      claimed.map fun record => (record.effectId, record.version) := by
  induction h with
  | nil => rfl
  | cons hread _ ih =>
    obtain ⟨keyRetention, settlementBound, rfl⟩ := sqliteRead_ok hread
    rw [List.map_cons, List.map_cons, ih]

theorem Holds.claimsDue (h : s.Holds secrets b) {workerId : Str} {now : Datetime}
    {leaseFor : Timedelta} {limit : Int} (hcall : c.call = .claimDue workerId now leaseFor limit)
    (hc : s.CanClaim c) : leaseStore.ClaimsDue s c now leaseFor limit := by
  obtain ⟨reads, claimed, b', hreply, hreads, hholds, hfirst⟩ := h.claimDue_first hcall hc
  have hqueue : leaseStore.queue s = b.queue.map EffectLedger.entry := h.queue_eq
  refine ⟨⟨reads, hreply, ?_⟩, ?_, ?_, ?_, ?_⟩ <;> rw [hqueue]
  · exact (map_of_reads hreads).trans hfirst.returned
  · rw [Book.firstIds_entry]
    refine Book.picks_id_nodup ?_
    exact ((List.perm_insertionSort _ _).map _).nodup_iff.mpr h.good.ids
  · exact hfirst.ends
  · refine hholds.queue_eq.trans (hfirst.advanced fun hb => ?_)
    rw [hb, Book.queue_claimAll]
  · intro e he
    obtain ⟨workerId, expiresAt, hb, -⟩ := hfirst.book
    rw [Book.firstIds_entry] at he
    refine h.rows_eq hholds ?_
    rw [hb, Book.ledger_claimAll he]

theorem Holds.leaves (h : s.Holds secrets b) (hwf : c.WellFormed)
    (hc : ∀ workerId now leaseFor limit, c.call ≠ .claimDue workerId now leaseFor limit)
    {q : QueueEntry} (hq : q ∈ s.queue) :
    HasMoved ⟨c, (SqliteStore.serve c s).1, (SqliteStore.serve c s).2⟩ q.effectId ∨
      ∃ q' ∈ (SqliteStore.serve c s).2.queue, q'.effectId = q.effectId ∧
        q'.deadline = q.deadline := by
  have hfollows := serve_follows h hwf
  have hmem := hq
  rw [h.queue_eq] at hmem
  obtain ⟨l, hl, rfl⟩ := List.mem_map.mp hmem
  have hleaves := @Book.serve_leaves b secrets.1 secrets.2 c hc l (Book.mem_queue.mp hl)
  generalize SqliteStore.serve c s = out at hfollows ⊢
  generalize b.serve secrets.1 secrets.2 c = out' at hfollows hleaves
  cases hfollows with
  | ok hvalue hholds =>
    rcases hleaves with ⟨version, target, data, record, hcall, hok⟩ | ⟨l', hl', hid, hlease⟩
    · cases hok
      cases hvalue with
      | effect => exact .inl ⟨version, target, data, _, hcall, rfl⟩
    · refine .inr ⟨l'.entry, ?_, hid, congrArg (Option.map Lease.expiresAt) hlease⟩
      rw [hholds.queue_eq]
      exact List.mem_map_of_mem (Book.mem_queue.mpr hl')
  | error => exact .inr ⟨l.entry, hq, rfl, rfl⟩
  | unfit => exact .inr ⟨l.entry, hq, rfl, rfl⟩

theorem lawful (secrets : Secrets) :
    leaseStore.Lawful (fun s c => c.WellFormed ∧ s.CanClaim c) fun s => ∃ b, s.Holds secrets b where
  keeps := fun ⟨_, hs⟩ hc => by
    obtain ⟨b', hholds, -⟩ := hs.serve hc.1
    exact ⟨b', hholds⟩
  held := by
    rintro s ⟨b, hs⟩ q hq hdeadline
    rw [show leaseStore.queue s = _ from hs.queue_eq] at hq
    obtain ⟨l, hl, rfl⟩ := List.mem_map.mp hq
    exact (hs.good.sound l (Book.mem_queue.mp hl)).held hdeadline
  unique := by
    rintro s ⟨b, hs⟩
    rw [show leaseStore.queue s = _ from hs.queue_eq, List.map_map]
    exact ((List.perm_insertionSort _ _).map _).nodup_iff.mpr hs.good.ids
  claims := fun ⟨_, hs⟩ hc hcall => hs.claimsDue hcall hc.2
  leaves := fun ⟨_, hs⟩ hc hcall _ hq => hs.leaves hc.1 hcall hq

end SqliteStore

/-! ## The theorem -/

/-- **Leases exclude other workers and lose nothing**, in every run in which the claims can
be carried out: in the in-memory store none overflows while an effect is due, in the
SQLite store none raises at all. -/
theorem leases_hold (hashes : Hashes) (tenantKeyProvider : TenantKeyProvider) :
    (∀ log s, StoreRun InMemoryStore.serve (.initial hashes tenantKeyProvider) log s →
      EachCall (fun s c => c.LeaseNonneg ∧ ¬s.LeaseOverflows c)
        (.initial hashes tenantKeyProvider) log →
      InMemoryStore.leaseStore.LeasesHold (.initial hashes tenantKeyProvider) log s) ∧
    ∀ log s, StoreRun SqliteStore.serve (.initial hashes tenantKeyProvider) log s →
      EachCall (fun s c => c.LeaseNonneg ∧ c.WellFormed ∧ s.CanClaim c)
        (.initial hashes tenantKeyProvider) log →
      SqliteStore.leaseStore.LeasesHold (.initial hashes tenantKeyProvider) log s := by
  constructor
  · intro log s hrun hcalls
    have hinit : (InMemoryStore.initial hashes tenantKeyProvider).Sound :=
      InMemoryStore.sound_of_run .start trivial
    exact InMemoryStore.lawful.leasesHold hrun ⟨hinit, fun _ hl => nomatch hl⟩ hcalls
  · intro log s hrun hcalls
    exact (SqliteStore.lawful (hashes, tenantKeyProvider)).leasesHold hrun
      ⟨[], SqliteStore.holds_initial hashes tenantKeyProvider⟩ hcalls

/-- A worker claims for a day, on some day. -/
def claimCall (workerId : String) (day : Fin 100) : TimedCall :=
  ⟨.claimDue (str workerId) (sampleTime day) oneDay 1, sampleTime day, []⟩

/-- The sample operation is reserved and claimed, and claimed again when the lease has ended. -/
def leaseCalls : List TimedCall :=
  [claimCall "v" 1, claimCall "w" 0,
    ⟨.reserve sampleTenant sampleRequest (sampleContract .unsafeClass 0), sampleTime 0, str "5eed"⟩]

theorem claimCall_leaseNonneg (workerId : String) (day : Fin 100) :
    (claimCall workerId day).LeaseNonneg := by
  intro workerId' now leaseFor limit hcall
  cases hcall
  decide

/-- A small table, of the sample effect, which can be read. -/
def SqliteStore.isSmall (s : SqliteStore) : Bool :=
  s.events.length < 10 && s.effects.all fun row =>
    row.toRecord.isOk && row.effectId = str "eff_5eed"

theorem canClaim_claimCall {s : SqliteStore} {workerId : String} {day : Fin 100}
    (hday : (sampleTime day).add oneDay ≠ none) (hsmall : s.isSmall = true) :
    s.CanClaim (claimCall workerId day) := by
  obtain ⟨hevents, hrows⟩ := Bool.and_eq_true_iff.mp hsmall
  refine fun _ => ⟨hday, fun row hrow _ => ?_⟩
  obtain ⟨hread, hid⟩ := Bool.and_eq_true_iff.mp (List.all_eq_true.mp hrows row hrow)
  refine ⟨encodable_str _, of_decide_eq_true hid ▸ encodable_str _, exists_of_isOk hread, ?_⟩
  have hlt : s.events.length < 10 := of_decide_eq_true hevents
  have hle := List.length_filter_le (fun event : SqliteEventRow => event.effectId = row.effectId) s.events
  omega

/-- Runs of both stores in which the sample operation is claimed by two workers in turn. -/
theorem leases_hold_sample :
    let init := InMemoryStore.initial sampleHashes sampleKeys
    let init' := SqliteStore.initial sampleHashes sampleKeys
    let log := servedCalls InMemoryStore.serve init leaseCalls
    let log' := servedCalls SqliteStore.serve init' leaseCalls
    log.map (fun x => handedOut x.reply) =
      [some [(effectIdOf 1, 2)], some [(effectIdOf 1, 1)], none] ∧
    log'.map (fun x => handedOut x.reply) =
      [some [(str "eff_5eed", 2)], some [(str "eff_5eed", 1)], none] ∧
    InMemoryStore.leaseStore.LeasesHold init log (storeOf InMemoryStore.serve init leaseCalls) ∧
    SqliteStore.leaseStore.LeasesHold init' log' (storeOf SqliteStore.serve init' leaseCalls) := by
  intro init init' log log'
  obtain ⟨hmemory, hsqlite⟩ := leases_hold sampleHashes sampleKeys
  have hreserve : (leaseCalls.getLast (by decide)).LeaseNonneg := fun _ _ _ _ hcall => nomatch hcall
  refine ⟨by decide +kernel, by decide +kernel, hmemory _ _ (storeRun_servedCalls _) ?_,
    hsqlite _ _ (storeRun_servedCalls _) ?_⟩
  · exact eachCall_cons ⟨claimCall_leaseNonneg "v" 1, fun hover => nomatch hover.2.1⟩
      (eachCall_cons ⟨claimCall_leaseNonneg "w" 0, fun hover => nomatch hover.2.1⟩
        (eachCall_cons ⟨hreserve, id⟩ trivial))
  · have harguments : sampleRequest.arguments.WellFormed := ⟨List.nodup_singleton _, trivial, trivial⟩
    exact eachCall_cons ⟨claimCall_leaseNonneg "v" 1, trivial, canClaim_claimCall (by decide)
        (by decide +kernel)⟩
      (eachCall_cons ⟨claimCall_leaseNonneg "w" 0, trivial, canClaim_claimCall (by decide)
          (by decide +kernel)⟩
        (eachCall_cons ⟨hreserve, harguments, trivial⟩ trivial))

/-- A claim that overflows returns nothing, and it has advanced the effect. -/
theorem overflow_advances : ∃ log s,
    StoreRun InMemoryStore.serve (.initial sampleHashes sampleKeys) log s ∧
    EachCall (fun _ c => c.LeaseNonneg) (.initial sampleHashes sampleKeys) log ∧
    s.records.values.map EffectRecord.version = [1] ∧
    ¬InMemoryStore.leaseStore.LeasesHold (.initial sampleHashes sampleKeys) log s := by
  have hrun : StoreRun InMemoryStore.serve (.initial sampleHashes sampleKeys) _ _ :=
    .call ⟨.claimDue (str "worker") (sampleTime 0)
        ⟨3000000 * 86400000000, by decide, by decide⟩ 1, sampleTime 0, []⟩
      (.call ⟨.reserve sampleTenant sampleRequest (sampleContract .unsafeClass 0), sampleTime 0, []⟩
        .start)
  refine ⟨_, _, hrun, ⟨?_, ?_, trivial⟩, by decide +kernel, fun hholds => ?_⟩
  · intro workerId now leaseFor limit hcall
    cases hcall
    decide
  · exact fun _ _ _ _ hcall => nomatch hcall
  · obtain ⟨records, hreply, -⟩ := (hholds.claims.1 _ _ _ _ rfl).returned
    cases hreply

end EffectBroker
