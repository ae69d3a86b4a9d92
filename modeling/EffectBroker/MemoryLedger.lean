import EffectBroker.EffectLedger
import EffectBroker.MemoryOperations
import EffectBroker.StoreCalls

/-!
# The in-memory store keeps a ledger for every effect

Each call of the in-memory store changes the ledger of every effect by one step at most,
with one exception: a claim whose lease would end outside the range of `datetime` has
already advanced the version of an effect when it raises.
-/
namespace EffectBroker
open Python

namespace InMemoryStore

/-- The ledger of an effect. -/
def ledgerOf (s : InMemoryStore) (e : Str) : Option EffectLedger :=
  (s.records.get? e).map fun record => ⟨record, s.leases.get? e, s.attemptsOf e, s.eventsOf e⟩

theorem ledgerOf_eq {s : InMemoryStore} {e : Str} {record : EffectRecord}
    (h : s.records.get? e = some record) :
    s.ledgerOf e = some ⟨record, s.leases.get? e, s.attemptsOf e, s.eventsOf e⟩ := by
  rw [ledgerOf, h]
  rfl

theorem ledgerOf_none {s : InMemoryStore} {e : Str} (h : s.records.get? e = none) :
    s.ledgerOf e = none := by
  rw [ledgerOf, h]
  rfl

theorem record_ledgerOf (s : InMemoryStore) (e : Str) :
    (s.ledgerOf e).map EffectLedger.record = s.records.get? e := by
  unfold ledgerOf
  cases s.records.get? e <;> rfl

/-! ## The primitive changes -/

theorem ledgerOf_appendEvent (s : InMemoryStore) {effectId : Str} {record : EffectRecord}
    (hget : s.records.get? effectId = some record) (hid : record.effectId = effectId)
    (eventType : EventType) (version : Nat) (data : Items) (at_ : Datetime) (e : Str) :
    (s.appendEvent effectId eventType version data at_).ledgerOf e =
      if e = effectId then (s.ledgerOf effectId).map (·.append eventType version data at_)
      else s.ledgerOf e := by
  subst hid
  unfold ledgerOf
  rw [appendEvent_records, eventsOf_appendEvent]
  by_cases he : e = record.effectId
  · subst he
    rw [if_pos rfl, if_pos rfl, hget]
    rfl
  · rw [if_neg he, if_neg he]
    rfl

theorem ledgerOf_insertEffect (s : InMemoryStore) {record : EffectRecord}
    (hlease : s.leases.get? record.effectId = none) (e : Str) :
    (s.insertEffect record).ledgerOf e =
      if e = record.effectId then some (.reserved record) else s.ledgerOf e := by
  dsimp only [insertEffect]
  rw [ledgerOf_appendEvent _ (Dict.get?_set_self ..) rfl]
  by_cases he : e = record.effectId
  · subst he
    rw [if_pos rfl, if_pos rfl, ledgerOf_eq (Dict.get?_set_self s.records record.effectId record)]
    simp only [Option.map_some, attemptsOf, eventsOf, Dict.get?_set_self, hlease]
    rfl
  · rw [if_neg he, if_neg he]
    simp only [ledgerOf, attemptsOf, eventsOf, Dict.get?_set_ne _ he]

theorem ledgerOf_addClaim (s : InMemoryStore) {effectId : Str} {record : EffectRecord}
    (hget : s.records.get? effectId = some record) (hid : record.effectId = effectId)
    (workerId : Str) (now expiresAt : Datetime) (e : Str) :
    (s.addClaim effectId record workerId now expiresAt).ledgerOf e =
      if e = effectId then (s.ledgerOf effectId).map (·.claimed workerId now expiresAt)
      else s.ledgerOf e := by
  have hclaimed := Dict.get?_set_self s.records effectId (claimedRecord record now)
  dsimp only [addClaim]
  have hclaimedId : (claimedRecord record now).effectId = effectId := hid
  refine (ledgerOf_appendEvent _ hclaimed hclaimedId ..).trans ?_
  by_cases he : e = effectId
  · subst he
    rw [if_pos rfl, if_pos rfl, ledgerOf_eq hget, ledgerOf_eq hclaimed]
    simp only [Option.map_some, Dict.get?_set_self]
    rfl
  · rw [if_neg he, if_neg he]
    simp only [ledgerOf, attemptsOf, eventsOf, Dict.get?_set_ne _ he]

theorem ledgerOf_addAttempt (s : InMemoryStore) {effectId : Str} {record : EffectRecord}
    (hget : s.records.get? effectId = some record) (hid : record.effectId = effectId)
    (now : Datetime) (workerId e : Str) :
    (s.addAttempt record now effectId workerId).ledgerOf e =
      if e = effectId then (s.ledgerOf effectId).map (·.attempted workerId now)
      else s.ledgerOf e := by
  dsimp only [addAttempt]
  refine Eq.trans (ledgerOf_appendEvent _ ?_ hid _ _ _ _ _) ?_
  · exact hget
  by_cases he : e = effectId
  · subst he
    rw [if_pos rfl, if_pos rfl]
    simp only [ledgerOf, hget, Option.map_some, attemptsOf, eventsOf, Dict.get?_set_self,
      Option.getD_some]
    subst hid
    rfl
  · rw [if_neg he, if_neg he]
    simp only [ledgerOf, attemptsOf, eventsOf, Dict.get?_set_ne _ he]

theorem ledgerOf_moveRecord (s : InMemoryStore) {effectId : Str} {record : EffectRecord}
    (hget : s.records.get? effectId = some record) (hid : record.effectId = effectId)
    {target : EffectStatus} (hlease : target.isClaimable → s.leases.get? effectId = none)
    (now : Datetime) (data : Items) (e : Str) :
    (s.moveRecord record now effectId target data).ledgerOf e =
      if e = effectId then (s.ledgerOf effectId).map (·.moved target now data)
      else s.ledgerOf e := by
  have hmoved := Dict.get?_set_self s.records effectId (movedRecord record target now)
  have hmovedId : (movedRecord record target now).effectId = effectId := hid
  dsimp only [moveRecord]
  by_cases hc : target.isClaimable
  · simp only [hc, if_true]
    refine (ledgerOf_appendEvent _ hmoved hmovedId ..).trans ?_
    by_cases he : e = effectId
    · subst he
      rw [if_pos rfl, if_pos rfl, ledgerOf_eq hget, ledgerOf_eq hmoved]
      simp only [Option.map_some, hlease hc]
      rfl
    · rw [if_neg he, if_neg he]
      simp only [ledgerOf, attemptsOf, eventsOf, Dict.get?_set_ne _ he]
  · simp only [hc, Bool.false_eq_true, if_false]
    refine (ledgerOf_appendEvent _ hmoved hmovedId ..).trans ?_
    by_cases he : e = effectId
    · subst he
      rw [if_pos rfl, if_pos rfl, ledgerOf_eq hget, ledgerOf_eq hmoved]
      simp only [Option.map_some, Dict.get?_erase_self]
      rfl
    · rw [if_neg he, if_neg he]
      simp only [ledgerOf, attemptsOf, eventsOf, Dict.get?_set_ne _ he, Dict.get?_erase_ne _ he]

/-! ## `claim_due`, exactly -/

/-- The loop of `claim_due` takes an item of the ledger. -/
def dueAt (s : InMemoryStore) (now : Datetime) (item : Str × EffectRecord) : Bool :=
  item.2.status.isClaimable && !s.leaseActive item.1 now

/-- The items that the loop claims. -/
def picks (s : InMemoryStore) (now : Datetime) (n : Nat) (items : List (Str × EffectRecord)) :
    List (Str × EffectRecord) :=
  (items.filter (s.dueAt now)).take n

/-- The store after the picks are claimed. -/
def claimAll (s : InMemoryStore) (workerId : Str) (now expiresAt : Datetime)
    (items : List (Str × EffectRecord)) : InMemoryStore :=
  items.foldl (fun s item => s.addClaim item.1 item.2 workerId now expiresAt) s

theorem addClaim_dueAt {s : InMemoryStore} {effectId workerId : Str} {record : EffectRecord}
    {now expiresAt : Datetime} {item : Str × EffectRecord} (h : item.1 ≠ effectId) :
    (s.addClaim effectId record workerId now expiresAt).dueAt now item = s.dueAt now item := by
  have hlease : (s.addClaim effectId record workerId now expiresAt).leases.get? item.1 =
      s.leases.get? item.1 := Dict.get?_set_ne _ h _
  simp only [dueAt, leaseActive, hlease]

/-- Claims that do not overflow take the due items in their order, up to the limit. -/
theorem claimLoop_eq (workerId : Str) {now expiresAt : Datetime} {leaseFor : Timedelta}
    (hadd : now.add leaseFor = some expiresAt) (limit : Int) (items : List (Str × EffectRecord))
    (s : InMemoryStore) (claimed : List EffectRecord) (hnodup : (items.map Prod.fst).Nodup) :
    claimLoop workerId now leaseFor limit items s claimed =
      (.ok (claimed ++ (s.picks now (limit - claimed.length).toNat items).map
        fun item => claimedRecord item.2 now),
      s.claimAll workerId now expiresAt (s.picks now (limit - claimed.length).toNat items)) := by
  induction items generalizing s claimed with
  | nil => simp [claimLoop, picks, claimAll]
  | cons item rest ih =>
    obtain ⟨effectId, record⟩ := item
    obtain ⟨hnot, hrest⟩ := List.nodup_cons.mp hnodup
    by_cases hlimit : (claimed.length : Int) ≥ limit
    · have hzero : (limit - claimed.length).toNat = 0 := by omega
      rw [claimLoop, if_pos hlimit, hzero]
      simp [picks, claimAll]
    · by_cases hdue : s.dueAt now (effectId, record) = true
      · obtain ⟨hc, hl⟩ := Bool.and_eq_true_iff.mp hdue
        have hn : (limit - claimed.length).toNat =
            (limit - (claimed ++ [claimedRecord record now]).length).toNat + 1 := by
          simp only [List.length_append, List.length_singleton]
          omega
        have hfilter : rest.filter ((s.addClaim effectId record workerId now expiresAt).dueAt now) =
            rest.filter (s.dueAt now) := List.filter_congr fun item hm =>
          addClaim_dueAt fun he => hnot (List.mem_map.mpr ⟨item, hm, he⟩)
        have hpicks : s.picks now (limit - claimed.length).toNat ((effectId, record) :: rest) =
            (effectId, record) :: (s.addClaim effectId record workerId now expiresAt).picks now
              (limit - (claimed ++ [claimedRecord record now]).length).toNat rest := by
          rw [picks, List.filter_cons_of_pos hdue, hn, List.take_succ_cons, picks, hfilter]
        rw [claimLoop, if_neg hlimit]
        simp only [hc, Bool.not_true, Bool.false_eq_true, if_false]
        rw [if_neg (by simpa using hl), hpicks]
        simp only [hadd]
        refine (ih (s.addClaim effectId record workerId now expiresAt) _ hrest).trans ?_
        simp only [List.append_assoc, List.singleton_append, List.map_cons]
        rfl
      · have hpicks : s.picks now (limit - claimed.length).toNat ((effectId, record) :: rest) =
            s.picks now (limit - claimed.length).toNat rest := by
          rw [picks, List.filter_cons_of_neg hdue, picks]
        rw [hpicks, ← ih s claimed hrest, claimLoop, if_neg hlimit]
        by_cases hc : record.status.isClaimable
        · have hl : s.leaseActive effectId now = true := by
            simpa [dueAt, hc] using hdue
          simp [hc, hl]
        · simp [hc]

/-- A claim that overflows has advanced the first due item, if there is one. -/
theorem claimLoop_overflow {workerId : Str} {now : Datetime} {leaseFor : Timedelta}
    (hadd : now.add leaseFor = none) (limit : Int) (items : List (Str × EffectRecord))
    (s : InMemoryStore) (claimed : List EffectRecord) :
    claimLoop workerId now leaseFor limit items s claimed =
      match s.picks now (limit - claimed.length).toNat items with
      | [] => (.ok claimed, s)
      | (effectId, record) :: _ => (.error .overflowError,
          { s with records := s.records.set effectId (claimedRecord record now) }) := by
  induction items with
  | nil => simp [claimLoop, picks]
  | cons item rest ih =>
    obtain ⟨effectId, record⟩ := item
    by_cases hlimit : (claimed.length : Int) ≥ limit
    · have hzero : (limit - claimed.length).toNat = 0 := by omega
      rw [claimLoop, if_pos hlimit, hzero]
      simp [picks]
    · by_cases hdue : s.dueAt now (effectId, record) = true
      · obtain ⟨hc, hl⟩ := Bool.and_eq_true_iff.mp hdue
        obtain ⟨n, hn⟩ : ∃ n, (limit - claimed.length).toNat = n + 1 :=
          ⟨(limit - claimed.length).toNat - 1, by omega⟩
        rw [claimLoop, if_neg hlimit, picks, List.filter_cons_of_pos hdue, hn, List.take_succ_cons]
        simp only [hc, Bool.not_true, Bool.false_eq_true, if_false]
        rw [if_neg (by simpa using hl)]
        simp only [hadd]
      · have hpicks : s.picks now (limit - claimed.length).toNat ((effectId, record) :: rest) =
            s.picks now (limit - claimed.length).toNat rest := by
          rw [picks, List.filter_cons_of_neg hdue, picks]
        rw [hpicks, ← ih, claimLoop, if_neg hlimit]
        by_cases hc : record.status.isClaimable
        · have hl : s.leaseActive effectId now = true := by
            simpa [dueAt, hc] using hdue
          simp [hc, hl]
        · simp [hc]

theorem ledgerOf_claimAll (workerId : Str) (now expiresAt : Datetime)
    {items : List (Str × EffectRecord)} {s : InMemoryStore} (hnodup : (items.map Prod.fst).Nodup)
    (hitems : ∀ item ∈ items, s.records.get? item.1 = some item.2 ∧ item.2.effectId = item.1)
    (e : Str) :
    (s.claimAll workerId now expiresAt items).ledgerOf e =
      if e ∈ items.map Prod.fst then (s.ledgerOf e).map (·.claimed workerId now expiresAt)
      else s.ledgerOf e := by
  induction items generalizing s with
  | nil => rfl
  | cons item rest ih =>
    obtain ⟨effectId, record⟩ := item
    obtain ⟨hnot, hrest⟩ := List.nodup_cons.mp hnodup
    obtain ⟨hget, hid⟩ := hitems _ (List.mem_cons_self ..)
    have hother : ∀ item ∈ rest, (s.addClaim effectId record workerId now expiresAt).records.get?
        item.1 = some item.2 ∧ item.2.effectId = item.1 := fun item hm => by
      have hne : item.1 ≠ effectId := fun h => hnot (List.mem_map.mpr ⟨item, hm, h⟩)
      rw [addClaim_records, if_neg hne]
      exact hitems item (List.mem_cons_of_mem _ hm)
    refine (ih hrest hother).trans ?_
    rw [ledgerOf_addClaim s hget hid]
    by_cases he : e = effectId
    · subst he
      rw [if_pos rfl, if_neg hnot, List.map_cons, if_pos (List.mem_cons_self ..)]
    · rw [if_neg he]
      simp only [List.map_cons, List.mem_cons, he, false_or]

/-! ## What every call keeps -/

/-- The tables belong together. -/
structure Kept (s : InMemoryStore) : Prop where
  effectId : ∀ e record, s.records.get? e = some record → record.effectId = e
  fresh : ∀ e record, s.records.get? e = some record → ∃ n < s.nextEffectId, e = effectIdOf n
  identity : ∀ k e, s.identity.get? k = some e ↔
    ∃ record, s.records.get? e = some record ∧ (record.tenantId, record.request.operationKey) = k
  lease : ∀ e, s.leases.get? e ≠ none →
    ∃ record, s.records.get? e = some record ∧ record.status.isClaimable

theorem Kept.unused {s : InMemoryStore} (h : s.Kept) {n : Nat} (hn : s.nextEffectId ≤ n) :
    s.records.get? (effectIdOf n) = none := by
  cases hget : s.records.get? (effectIdOf n) with
  | none => rfl
  | some record =>
    obtain ⟨m, hm, he⟩ := h.fresh _ _ hget
    have := effectIdOf_injective he
    omega

theorem Kept.no_lease {s : InMemoryStore} (h : s.Kept) {e : Str}
    (hnot : ∀ record, s.records.get? e = some record → record.status.isClaimable = false) :
    s.leases.get? e = none := by
  by_contra hlease
  obtain ⟨record, hget, hc⟩ := h.lease e hlease
  rw [hnot record hget] at hc
  cases hc

theorem kept_initial (hashes : Hashes) (tenantKeyProvider : TenantKeyProvider) :
    (initial hashes tenantKeyProvider).Kept := by
  refine ⟨fun _ _ h => (nomatch h), fun _ _ h => (nomatch h), fun k e => ?_, fun _ h => absurd rfl h⟩
  constructor
  · exact fun h => nomatch h
  · rintro ⟨_, h, -⟩
    cases h

/-- A change of one record that keeps its identity. -/
theorem Kept.update {s s' : InMemoryStore} {e : Str} {record after : EffectRecord} (h : s.Kept)
    (hget : s.records.get? e = some record)
    (hrecords : ∀ e', s'.records.get? e' = if e' = e then some after else s.records.get? e')
    (hid : after.effectId = record.effectId) (htenant : after.tenantId = record.tenantId)
    (hrequest : after.request = record.request) (hidentity : s'.identity = s.identity)
    (hnext : s'.nextEffectId = s.nextEffectId)
    (hlease : ∀ e', s'.leases.get? e' ≠ none →
      if e' = e then after.status.isClaimable = true else s.leases.get? e' ≠ none) : s'.Kept := by
  refine ⟨fun e' r hr => ?_, fun e' r hr => ?_, fun k e' => ?_, fun e' he' => ?_⟩
  · rw [hrecords] at hr
    split at hr
    · rename_i he
      cases hr
      rw [he, hid]
      exact h.effectId e record hget
    · exact h.effectId e' r hr
  · rw [hnext]
    rw [hrecords] at hr
    split at hr
    · rename_i he
      rw [he]
      exact h.fresh e record hget
    · exact h.fresh e' r hr
  · rw [hidentity, h.identity, hrecords]
    by_cases he : e' = e
    · subst he
      simp only [if_true, hget, Option.some.injEq, exists_eq_left', htenant, hrequest]
    · simp only [he, if_false]
  · have := hlease e' he'
    rw [hrecords]
    split at this
    · rename_i he
      rw [if_pos he]
      exact ⟨after, rfl, this⟩
    · rename_i he
      rw [if_neg he]
      exact h.lease e' this

theorem Kept.insertEffect {s : InMemoryStore} (h : s.Kept) {record : EffectRecord}
    (hid : record.effectId = effectIdOf s.nextEffectId)
    (hidentity : s.identity.get? (record.tenantId, record.request.operationKey) = none) :
    ({ s with nextEffectId := s.nextEffectId + 1 }.insertEffect record).Kept := by
  have hunused := h.unused le_rfl
  rw [← hid] at hunused
  refine ⟨fun e r hr => ?_, fun e r hr => ?_, fun k e => ?_, fun e he => ?_⟩
  · rw [insertEffect_records] at hr
    split at hr
    · rename_i he
      cases hr
      exact he.symm
    · exact h.effectId e r hr
  · rw [insertEffect_records] at hr
    split at hr
    · rename_i he
      exact ⟨s.nextEffectId, Nat.lt_succ_self _, he.trans hid⟩
    · obtain ⟨n, hn, he⟩ := h.fresh e r hr
      exact ⟨n, Nat.lt_succ_of_lt hn, he⟩
  · rw [insertEffect_records]
    show (s.identity.set _ _).get? k = some e ↔ _
    rw [Dict.get?_set]
    by_cases he : e = record.effectId
    · subst he
      simp only [if_true, Option.some.injEq, exists_eq_left']
      constructor
      · intro hk
        split at hk
        · rename_i heq
          exact heq.symm
        · obtain ⟨r, hr, -⟩ := (h.identity _ _).mp hk
          rw [hunused] at hr
          cases hr
      · intro hk
        rw [if_pos hk.symm]
    · rw [if_neg he]
      constructor
      · intro hk
        split at hk
        · exact absurd (Option.some.inj hk).symm he
        · exact (h.identity _ _).mp hk
      · rintro ⟨r, hr, hk⟩
        have := (h.identity k e).mpr ⟨r, hr, hk⟩
        rw [if_neg (fun heq => by rw [heq, hidentity] at this; cases this)]
        exact this
  · obtain ⟨r, hr, hc⟩ := h.lease e he
    have hne : e ≠ record.effectId := fun heq => by
      rw [heq, hunused] at hr
      cases hr
    exact ⟨r, by rw [insertEffect_records, if_neg hne]; exact hr, hc⟩

theorem Kept.addClaim {s : InMemoryStore} (h : s.Kept) {effectId : Str} {record : EffectRecord}
    (hget : s.records.get? effectId = some record) (hc : record.status.isClaimable)
    (workerId : Str) (now expiresAt : Datetime) :
    (s.addClaim effectId record workerId now expiresAt).Kept := by
  refine h.update hget (fun e => addClaim_records ..) rfl rfl rfl rfl rfl fun e he => ?_
  split
  · exact hc
  · rename_i hne
    exact fun hnone => he ((Dict.get?_set_ne _ hne _).trans hnone)

theorem Kept.claimAll {s : InMemoryStore} (h : s.Kept) {items : List (Str × EffectRecord)}
    (hnodup : (items.map Prod.fst).Nodup)
    (hitems : ∀ item ∈ items, s.records.get? item.1 = some item.2 ∧ item.2.status.isClaimable)
    (workerId : Str) (now expiresAt : Datetime) : (s.claimAll workerId now expiresAt items).Kept := by
  induction items generalizing s with
  | nil => exact h
  | cons item rest ih =>
    obtain ⟨effectId, record⟩ := item
    obtain ⟨hnot, hrest⟩ := List.nodup_cons.mp hnodup
    obtain ⟨hget, hc⟩ := hitems _ (List.mem_cons_self ..)
    refine ih (h.addClaim hget hc workerId now expiresAt) hrest fun item hm => ?_
    have hne : item.1 ≠ effectId := fun he => hnot (List.mem_map.mpr ⟨item, hm, he⟩)
    rw [addClaim_records, if_neg hne]
    exact hitems item (List.mem_cons_of_mem _ hm)

theorem Kept.moveRecord {s : InMemoryStore} (h : s.Kept) {effectId : Str} {record : EffectRecord}
    (hget : s.records.get? effectId = some record) (target : EffectStatus) (now : Datetime)
    (data : Items) : (s.moveRecord record now effectId target data).Kept := by
  refine h.update hget (fun e => moveRecord_records ..) rfl rfl rfl (moveRecord_identity ..)
    (moveRecord_nextEffectId ..) fun e he => ?_
  have hleases : (s.moveRecord record now effectId target data).leases =
      if target.isClaimable then s.leases else s.leases.erase effectId := by
    unfold InMemoryStore.moveRecord
    split <;> rfl
  rw [hleases] at he
  by_cases hc : target.isClaimable
  · rw [if_pos hc] at he
    split
    · exact hc
    · exact he
  · rw [if_neg hc] at he
    split
    · rename_i heq
      rw [heq, Dict.get?_erase_self] at he
      exact absurd rfl he
    · rename_i hne
      rwa [Dict.get?_erase_ne _ hne] at he

/-! ## What a call does to each ledger -/

/-- A ledger stays, or takes one step. -/
def LedgerChange (s s' : InMemoryStore) (e : Str) : Prop :=
  s'.ledgerOf e = s.ledgerOf e ∨ ∃ l, s'.ledgerOf e = some l ∧ LedgerStep (s.ledgerOf e) l

/-- A claim whose lease would end outside the range of `datetime`, while an effect is due. -/
def LeaseOverflows (s : InMemoryStore) (c : TimedCall) : Prop :=
  match c.call with
  | .claimDue _ now leaseFor limit =>
    0 < limit ∧ now.add leaseFor = none ∧ ∃ item ∈ s.records.items, s.dueAt now item = true
  | _ => False

instance (s : InMemoryStore) (c : TimedCall) : Decidable (s.LeaseOverflows c) := by
  unfold LeaseOverflows
  split <;> infer_instance

/-- The store after a claim that overflows at an effect. -/
def overflowed (s : InMemoryStore) (effectId : Str) (record : EffectRecord) (now : Datetime) :
    InMemoryStore := { s with records := s.records.set effectId (claimedRecord record now) }

theorem picks_items {s : InMemoryStore} (h : s.Kept) (now : Datetime) (n : Nat) :
    ((s.picks now n s.records.items).map Prod.fst).Nodup ∧
    ∀ item ∈ s.picks now n s.records.items, s.records.get? item.1 = some item.2 ∧
      item.2.effectId = item.1 ∧ s.dueAt now item = true := by
  have hsub : (s.picks now n s.records.items).Sublist s.records.items :=
    (List.take_sublist _ _).trans List.filter_sublist
  refine ⟨(hsub.map _).nodup s.records.nodup, fun item hm => ?_⟩
  have hget := Dict.get?_of_mem_items (hsub.subset hm)
  exact ⟨hget, h.effectId _ _ hget, (List.mem_filter.mp (List.mem_of_mem_take hm)).2⟩

/-- `claim_due` as a whole. -/
theorem claimDue_cases {s : InMemoryStore} (h : s.Kept) (workerId : Str) (now : Datetime)
    (leaseFor : Timedelta) (limit : Int) :
    (∃ results, s.claimDue workerId now leaseFor limit = (.ok results, s) ∧ results = []) ∨
    (∃ expiresAt, now.add leaseFor = some expiresAt ∧ 0 < limit ∧
      s.claimDue workerId now leaseFor limit =
        (.ok ((s.picks now limit.toNat s.records.items).map fun item => claimedRecord item.2 now),
          s.claimAll workerId now expiresAt (s.picks now limit.toNat s.records.items))) ∨
    (∃ effectId record, now.add leaseFor = none ∧ 0 < limit ∧
      s.records.get? effectId = some record ∧ s.dueAt now (effectId, record) = true ∧
      s.claimDue workerId now leaseFor limit =
        (.error .overflowError, s.overflowed effectId record now)) := by
  unfold claimDue
  by_cases hlimit : limit ≤ 0
  · rw [if_pos hlimit]
    exact .inl ⟨_, rfl, rfl⟩
  · rw [if_neg hlimit]
    cases hadd : now.add leaseFor with
    | some expiresAt =>
      refine .inr (.inl ⟨expiresAt, rfl, by omega, ?_⟩)
      have := claimLoop_eq workerId hadd limit s.records.items s [] s.records.nodup
      simpa using this
    | none =>
      rw [claimLoop_overflow hadd]
      cases hpicks : s.picks now (limit - ([] : List EffectRecord).length).toNat s.records.items with
      | nil => exact .inl ⟨_, rfl, rfl⟩
      | cons item rest =>
        obtain ⟨effectId, record⟩ := item
        have hitem := (picks_items h now (limit - ([] : List EffectRecord).length).toNat).2
          (effectId, record) (by rw [hpicks]; exact List.mem_cons_self ..)
        exact .inr (.inr ⟨effectId, record, rfl, by omega, hitem.1, hitem.2.2, rfl⟩)

theorem LedgerChange.refl (s : InMemoryStore) (e : Str) : LedgerChange s s e := .inl rfl

theorem LedgerChange.step {s s' : InMemoryStore} {effectId e : Str} {record : EffectRecord}
    {change : EffectLedger → EffectLedger} (hget : s.records.get? effectId = some record)
    (heq : s'.ledgerOf e = if e = effectId then (s.ledgerOf effectId).map change else s.ledgerOf e)
    (hstep : ∀ l : EffectLedger, l.record = record → s.ledgerOf effectId = some l →
      LedgerStep (some l) (change l)) : LedgerChange s s' e := by
  by_cases he : e = effectId
  · subst he
    rw [if_pos rfl, ledgerOf_eq hget] at heq
    refine .inr ⟨_, heq, ?_⟩
    rw [ledgerOf_eq hget]
    exact hstep _ rfl (ledgerOf_eq hget)
  · rw [if_neg he] at heq
    exact .inl heq

theorem ledger_insertEffect {s : InMemoryStore} (h : s.Kept) {record : EffectRecord}
    (hid : record.effectId = effectIdOf s.nextEffectId) (hstatus : record.status = .prepared)
    (hversion : record.version = 0) (e : Str) :
    LedgerChange s ({ s with nextEffectId := s.nextEffectId + 1 }.insertEffect record) e := by
  have hunused := h.unused le_rfl
  rw [← hid] at hunused
  have hlease := h.no_lease (e := record.effectId) fun r hr => by
    rw [hunused] at hr
    cases hr
  have heq := ledgerOf_insertEffect { s with nextEffectId := s.nextEffectId + 1 } hlease e
  by_cases he : e = record.effectId
  · subst he
    rw [if_pos rfl] at heq
    refine .inr ⟨_, heq, ?_⟩
    rw [ledgerOf_none hunused]
    exact .reserved hstatus hversion
  · rw [if_neg he] at heq
    exact .inl heq

theorem due_of_dueAt {s : InMemoryStore} {e : Str} {l : EffectLedger} {record : EffectRecord}
    {now : Datetime} (hl : s.ledgerOf e = some l) (hget : s.records.get? e = some record)
    (hdue : s.dueAt now (e, record) = true) : l.due now = true := by
  rw [ledgerOf_eq hget] at hl
  cases hl
  obtain ⟨hc, hlease⟩ := Bool.and_eq_true_iff.mp hdue
  refine Bool.and_eq_true_iff.mpr ⟨hc, ?_⟩
  unfold leaseActive at hlease
  cases hle : s.leases.get? e with
  | none => rfl
  | some lease =>
    rw [hle] at hlease
    simpa using hlease

theorem ledger_claimAll {s : InMemoryStore} (h : s.Kept) (workerId : Str) (now expiresAt : Datetime)
    (n : Nat) (e : Str) :
    LedgerChange s (s.claimAll workerId now expiresAt (s.picks now n s.records.items)) e := by
  obtain ⟨hnodup, hitems⟩ := picks_items h now n
  have heq := ledgerOf_claimAll workerId now expiresAt hnodup
    (fun item hm => ⟨(hitems item hm).1, (hitems item hm).2.1⟩) e
  by_cases he : e ∈ (s.picks now n s.records.items).map Prod.fst
  · obtain ⟨⟨effectId, record⟩, hm, rfl⟩ := List.mem_map.mp he
    obtain ⟨hget, -, hdue⟩ := hitems _ hm
    rw [if_pos he] at heq
    rw [ledgerOf_eq hget] at heq
    refine .inr ⟨_, heq, ?_⟩
    rw [ledgerOf_eq hget]
    exact .claimed (due_of_dueAt (ledgerOf_eq hget) hget hdue)
  · rw [if_neg he] at heq
    exact .inl heq

/-- **What a call does.**  It keeps the tables together, and changes every ledger by one
step at most, unless it is a claim that overflows. -/
theorem serve_spec {s : InMemoryStore} (h : s.Kept) (c : TimedCall) :
    (serve c s).2.Kept ∧ ((∀ e, LedgerChange s (serve c s).2 e) ∨
      s.LeaseOverflows c ∧ ∃ effectId record now, s.records.get? effectId = some record ∧
        record.status.isClaimable ∧ (serve c s).2 = s.overflowed effectId record now) := by
  obtain ⟨call, now, uuid⟩ := c
  cases call with
  | reserve tenantId request contract =>
    show (s.reserve now tenantId request contract).2.Kept ∧
      ((∀ e, LedgerChange s (s.reserve now tenantId request contract).2 e) ∨ _)
    rcases s.reserve_cases now tenantId request contract with
      ⟨exc, next, heq, hnext⟩ | ⟨existing, heq, -⟩ |
      ⟨record, heq, hid, htenant, hrequest, -, hstatus, hversion, -, hidentity⟩ <;> rw [heq]
    · refine ⟨⟨h.effectId, fun e r hr => ?_, h.identity, h.lease⟩, .inl fun e => .inl rfl⟩
      obtain ⟨n, hn, he⟩ := h.fresh e r hr
      exact ⟨n, Nat.lt_of_lt_of_le hn hnext, he⟩
    · exact ⟨h, .inl fun e => .refl s e⟩
    · rw [← htenant, ← hrequest] at hidentity
      exact ⟨h.insertEffect hid hidentity, .inl (ledger_insertEffect h hid hstatus hversion)⟩
  | claimDue workerId now' leaseFor limit =>
    show (s.claimDue workerId now' leaseFor limit).2.Kept ∧
      ((∀ e, LedgerChange s (s.claimDue workerId now' leaseFor limit).2 e) ∨
        _ ∧ ∃ effectId record now, _ ∧ _ ∧ (s.claimDue workerId now' leaseFor limit).2 = _)
    rcases claimDue_cases h workerId now' leaseFor limit with
      ⟨results, heq, -⟩ | ⟨expiresAt, -, -, heq⟩ |
      ⟨effectId, record, hadd, hlimit, hget, hdue, heq⟩ <;> rw [heq]
    · exact ⟨h, .inl fun e => .refl s e⟩
    · obtain ⟨hnodup, hitems⟩ := picks_items h now' limit.toNat
      exact ⟨h.claimAll hnodup (fun item hm => ⟨(hitems item hm).1,
        (Bool.and_eq_true_iff.mp (hitems item hm).2.2).1⟩) ..,
        .inl fun e => ledger_claimAll h workerId now' expiresAt limit.toNat e⟩
    · have hc := (Bool.and_eq_true_iff.mp hdue).1
      refine ⟨?_, .inr ⟨⟨hlimit, hadd, _, Dict.mem_items_of_get? hget, hdue⟩, effectId, record, now',
        hget, hc, rfl⟩⟩
      refine h.update hget (fun e => Dict.get?_set ..) rfl rfl rfl rfl rfl fun e he => ?_
      split
      · exact hc
      · exact he
  | startAttempt effectId expectedVersion workerId =>
    show (s.startAttempt now effectId expectedVersion workerId).2.Kept ∧
      ((∀ e, LedgerChange s (s.startAttempt now effectId expectedVersion workerId).2 e) ∨ _)
    rcases s.startAttempt_cases now effectId expectedVersion workerId with
      ⟨exc, heq⟩ | ⟨record, hget, -, heq⟩ <;> rw [heq]
    · exact ⟨h, .inl fun e => .refl s e⟩
    · refine ⟨⟨h.effectId, h.fresh, h.identity, h.lease⟩, .inl fun e => ?_⟩
      exact .step hget (ledgerOf_addAttempt s hget (h.effectId _ _ hget) now workerId e)
        fun _ _ _ => .attempted
  | transition effectId expectedVersion target data =>
    show (s.transition now effectId expectedVersion target data).2.Kept ∧
      ((∀ e, LedgerChange s (s.transition now effectId expectedVersion target data).2 e) ∨ _)
    rcases s.transition_cases now effectId expectedVersion target data with
      ⟨exc, heq, -⟩ | ⟨record, hget, -, ha, heq⟩ <;> rw [heq]
    · exact ⟨h, .inl fun e => .refl s e⟩
    · refine ⟨h.moveRecord hget target now data, .inl fun e => ?_⟩
      -- no edge leads from one claimable status to another, so there is no lease to keep
      have hlease : target.isClaimable → s.leases.get? effectId = none := fun hc =>
        h.no_lease fun r hr => by
          rw [hget] at hr
          cases hr
          exact not_isClaimable_of_isAllowed ha hc
      exact .step hget (ledgerOf_moveRecord s hget (h.effectId _ _ hget) hlease now data e)
        fun l hl _ => .moved (hl ▸ ha)
  | get | list | receipt | events | attemptCount | count => exact ⟨h, .inl fun e => .refl s e⟩

/-- What a call does to each record. -/
theorem serve_records {s : InMemoryStore} (h : s.Kept) (c : TimedCall) (e : Str) :
    RecordStep (s.records.get? e) ((serve c s).2.records.get? e) := by
  rcases (serve_spec h c).2 with hchange | ⟨-, effectId, record, now, hget, hc, heq⟩
  · rw [← record_ledgerOf s, ← record_ledgerOf]
    rcases hchange e with heq | ⟨l, heq, hstep⟩ <;> rw [heq]
    · exact .same
    · exact hstep.record
  · rw [heq]
    show RecordStep _ ((s.records.set effectId (claimedRecord record now)).get? e)
    rw [Dict.get?_set]
    split
    · rename_i he
      rw [he, hget]
      exact .claimed hc
    · exact .same

end InMemoryStore
end EffectBroker
