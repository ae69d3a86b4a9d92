import EffectBroker.Coherence
import EffectBroker.MemoryLedger

/-!
# Version fencing

A version of an effect stands for one record, and is left at most once.  So of all the
callers that hold a version only one can advance the effect, and the others are told.
-/
namespace EffectBroker
open Python

/-- The records that a call shows. -/
def Served.reads {σ : Type} (x : Served σ) : List EffectRecord :=
  match x.reply with
  | .ok (.reservation reservation) => [reservation.effect]
  | .ok (.effects effects) => effects
  | .ok (.effect effect) => [effect]
  | .ok (.found (some effect)) => [effect]
  | _ => []

/-- How often a call leaves the version `v` of the effect `e`: successful claims and
transitions do. -/
def Served.departures {σ : Type} (e : Str) (v : Nat) (x : Served σ) : Nat :=
  match x.call.call, x.reply with
  | .transition effectId expectedVersion _ _, .ok _ =>
    if effectId = e ∧ expectedVersion = v then 1 else 0
  | .claimDue .., .ok (.effects effects) =>
    effects.countP fun effect => effect.effectId = e ∧ effect.version = v + 1
  | _, _ => 0

/-- The departures of a run. -/
def departuresIn {σ : Type} (e : Str) (v : Nat) (log : List (Served σ)) : Nat :=
  (log.map (Served.departures e v)).sum

/-- The version of an effect, from one store to the next. -/
inductive Climbs : Option Nat → Option Nat → Prop
  | same {version} : Climbs version version
  | reserved : Climbs none (some 0)
  | next {n} : Climbs (some n) (some (n + 1))

/-- The version of an effect. -/
def InMemoryStore.versionOf (s : InMemoryStore) (e : Str) : Option Nat :=
  (s.records.get? e).map EffectRecord.version

/-- What fencing by versions gives in a run. -/
structure VersionFenced (init : InMemoryStore) (log : List (Served InMemoryStore))
    (s : InMemoryStore) : Prop where
  leftOnce : ∀ e v, departuresIn e v log ≤ 1
  climbs : ∀ e, ((log.map Served.store ++ [init]).map (·.versionOf e)).IsChain
    fun after before => Climbs before after
  oneRecord : ∀ a ∈ log.flatMap Served.reads, ∀ b ∈ log.flatMap Served.reads,
    a.effectId = b.effectId → a.version = b.version → a = b
  refusesTransition : ∀ effectId expectedVersion target data now uuid,
    (∀ record, s.records.get? effectId = some record → (record.version : Int) = expectedVersion →
      isAllowed record.status target = false) →
    ∃ exc, InMemoryStore.serve ⟨.transition effectId expectedVersion target data, now, uuid⟩ s =
      (.error exc, s)
  refusesAttempt : ∀ effectId expectedVersion workerId now uuid,
    (∀ record, s.records.get? effectId = some record → (record.version : Int) ≠ expectedVersion) →
    ∃ exc, InMemoryStore.serve ⟨.startAttempt effectId expectedVersion workerId, now, uuid⟩ s =
      (.error exc, s)
  conflicts : ∀ e v, 1 ≤ departuresIn e v log → ∀ now uuid,
    (∀ target data, ∃ message,
      InMemoryStore.serve ⟨.transition e v target data, now, uuid⟩ s =
        (.error (.versionConflict message), s)) ∧
    ∀ workerId, ∃ message, InMemoryStore.serve ⟨.startAttempt e v workerId, now, uuid⟩ s =
      (.error (.versionConflict message), s)

section
variable {s s' init : InMemoryStore} {log : List (Served InMemoryStore)} {e : Str} {v : Nat}

theorem RecordStep.climbs {before after : Option EffectRecord} (h : RecordStep before after) :
    Climbs (before.map EffectRecord.version) (after.map EffectRecord.version) := by
  cases h with
  | same => exact .same
  | reserved _ hv =>
    rw [Option.map_some, hv]
    exact .reserved
  | claimed | moved => exact .next

theorem advances_serve (h : s.Kept) (c : TimedCall) : Advances s (InMemoryStore.serve c s).2 := by
  intro e current hget
  have hstep := InMemoryStore.serve_records h c e
  rw [hget] at hstep
  generalize hafter : (InMemoryStore.serve c s).2.records.get? e = after at hstep
  cases hstep with
  | same => exact ⟨current, rfl, .inl rfl⟩
  | claimed | moved => exact ⟨_, rfl, .inr (Nat.lt_succ_self _)⟩

/-! ## What a call shows is current -/

theorem InMemoryStore.mem_list {record : EffectRecord} {tenantId : Str}
    {status : Option EffectStatus} {limit offset : Int}
    (h : record ∈ s.list tenantId status limit offset) : ∃ e, s.records.get? e = some record := by
  have hmem := List.mem_of_mem_take (List.mem_of_mem_drop h)
  have hvalue := (List.mem_filter.mp ((List.mem_insertionSort _).mp hmem)).1
  obtain ⟨⟨e, r⟩, hm, rfl⟩ := List.mem_map.mp hvalue
  exact ⟨e, Dict.get?_of_mem_items hm⟩

/-- A claimed record is in the ledger after the claims. -/
theorem InMemoryStore.claimAll_record (h : s.Kept) {now : Datetime} {n : Nat} {item : Str × EffectRecord}
    (hm : item ∈ s.picks now n s.records.items) (workerId : Str) (expiresAt : Datetime) :
    (s.claimAll workerId now expiresAt (s.picks now n s.records.items)).records.get? item.1 =
      some (claimedRecord item.2 now) := by
  obtain ⟨hnodup, hitems⟩ := InMemoryStore.picks_items h now n
  have hledger := InMemoryStore.ledgerOf_claimAll workerId now expiresAt
    hnodup (fun i hi => ⟨(hitems i hi).1, (hitems i hi).2.1⟩) item.1
  rw [if_pos (List.mem_map.mpr ⟨item, hm, rfl⟩), InMemoryStore.ledgerOf_eq (hitems item hm).1] at hledger
  rw [← InMemoryStore.record_ledgerOf, hledger]
  rfl

/-- What a call shows is in the ledger when the call has been served. -/
theorem reads_current (h : s.Kept) (c : TimedCall) {record : EffectRecord}
    (hr : record ∈ Served.reads ⟨c, (InMemoryStore.serve c s).1, (InMemoryStore.serve c s).2⟩) :
    (InMemoryStore.serve c s).2.records.get? record.effectId = some record := by
  have hkept := (InMemoryStore.serve_spec h c).1
  obtain ⟨e, he⟩ : ∃ e, (InMemoryStore.serve c s).2.records.get? e = some record := by
    obtain ⟨call, now, uuid⟩ := c
    cases call with
    | reserve tenantId request contract =>
      simp only [InMemoryStore.serve] at hr ⊢
      rcases s.reserve_cases now tenantId request contract with
        ⟨exc, next, heq, hnext⟩ | ⟨existing, heq, effectId, -, hget⟩ | ⟨r, heq, -⟩ <;>
        rw [heq] at hr ⊢
      · cases hr
      · obtain rfl := List.mem_singleton.mp hr
        exact ⟨effectId, hget⟩
      · obtain rfl := List.mem_singleton.mp hr
        exact ⟨record.effectId, by rw [InMemoryStore.insertEffect_records, if_pos rfl]⟩
    | claimDue workerId now' leaseFor limit =>
      simp only [InMemoryStore.serve] at hr ⊢
      rcases InMemoryStore.claimDue_cases h workerId now' leaseFor limit with
        ⟨results, heq, rfl⟩ | ⟨expiresAt, -, -, heq⟩ | ⟨effectId, r, -, -, -, -, heq⟩ <;>
        rw [heq] at hr ⊢
      · cases hr
      · obtain ⟨item, hm, rfl⟩ := List.mem_map.mp hr
        exact ⟨item.1, InMemoryStore.claimAll_record h hm ..⟩
      · cases hr
    | startAttempt effectId expectedVersion workerId =>
      simp only [InMemoryStore.serve] at hr
      rcases s.startAttempt_cases now effectId expectedVersion workerId with
        ⟨exc, heq⟩ | ⟨r, -, -, heq⟩ <;> rw [heq] at hr <;> cases hr
    | transition effectId expectedVersion target data =>
      simp only [InMemoryStore.serve] at hr ⊢
      rcases s.transition_cases now effectId expectedVersion target data with
        ⟨exc, heq, -⟩ | ⟨r, -, -, -, heq⟩ <;> rw [heq] at hr ⊢
      · cases hr
      · obtain rfl := List.mem_singleton.mp hr
        exact ⟨effectId, by rw [InMemoryStore.moveRecord_records, if_pos rfl]⟩
    | get tenantId effectId =>
      simp only [InMemoryStore.serve, Served.reads] at hr ⊢
      cases hget : s.get tenantId effectId with
      | none =>
        rw [hget] at hr
        cases hr
      | some r =>
        rw [hget] at hr
        obtain rfl := List.mem_singleton.mp hr
        exact ⟨effectId, InMemoryStore.get_some hget⟩
    | list tenantId status limit offset => exact InMemoryStore.mem_list hr
    | receipt | events | attemptCount | count => cases hr
  rwa [hkept.effectId e record he]

/-! ## Departures -/

/-- A call that leaves a version finds it in the ledger, leaves it once, and leaves the
next one behind. -/
theorem departure_spec (h : s.Kept) (c : TimedCall) (e : Str) (v : Nat) :
    let x : Served InMemoryStore := ⟨c, (InMemoryStore.serve c s).1, (InMemoryStore.serve c s).2⟩
    x.departures e v ≤ 1 ∧ (1 ≤ x.departures e v →
      s.versionOf e = some v ∧ (InMemoryStore.serve c s).2.versionOf e = some (v + 1)) := by
  intro x
  obtain ⟨call, now, uuid⟩ := c
  cases call with
  | transition effectId expectedVersion target data =>
    simp only [Served.departures, x, InMemoryStore.serve]
    rcases s.transition_cases now effectId expectedVersion target data with
      ⟨exc, heq, -⟩ | ⟨r, hget, hv, -, heq⟩ <;> rw [heq]
    · exact ⟨Nat.zero_le _, fun h => absurd h (Nat.not_succ_le_zero _)⟩
    · simp only [Except.map]
      split
      · rename_i hev
        obtain ⟨rfl, hev⟩ := hev
        have hrv : r.version = v := by omega
        refine ⟨le_rfl, fun _ => ⟨?_, ?_⟩⟩
        · rw [InMemoryStore.versionOf, hget, Option.map_some, hrv]
        · rw [InMemoryStore.versionOf, InMemoryStore.moveRecord_records, if_pos rfl, Option.map_some,
            movedRecord, hrv]
      · exact ⟨Nat.zero_le _, fun h => absurd h (Nat.not_succ_le_zero _)⟩
  | claimDue workerId now' leaseFor limit =>
    simp only [Served.departures, x, InMemoryStore.serve]
    rcases InMemoryStore.claimDue_cases h workerId now' leaseFor limit with
      ⟨results, heq, rfl⟩ | ⟨expiresAt, -, -, heq⟩ | ⟨effectId, r, -, -, -, -, heq⟩ <;> rw [heq]
    · exact ⟨Nat.zero_le _, fun h => absurd h (Nat.not_succ_le_zero _)⟩
    · simp only [Except.map]
      obtain ⟨hnodup, hitems⟩ := InMemoryStore.picks_items h now' limit.toNat
      rw [List.countP_map]
      refine ⟨?_, fun hone => ?_⟩
      · -- every effect is claimed once
        have hcount := List.nodup_iff_count_le_one.mp hnodup e
        rw [List.count, List.countP_map] at hcount
        refine le_trans (List.countP_mono_left fun item hm hp => ?_) hcount
        simp only [Function.comp_apply, decide_eq_true_eq] at hp
        exact beq_iff_eq.mpr ((hitems item hm).2.1.symm.trans hp.1)
      · obtain ⟨item, hm, hp⟩ := List.countP_pos_iff.mp hone
        simp only [Function.comp_apply, decide_eq_true_eq] at hp
        have hkey : item.1 = e := (hitems item hm).2.1.symm.trans hp.1
        have hv : item.2.version = v := Nat.succ.inj hp.2
        have hafter := InMemoryStore.claimAll_record h hm workerId expiresAt
        rw [hkey] at hafter
        refine ⟨?_, ?_⟩
        · rw [InMemoryStore.versionOf, ← hkey, (hitems item hm).1, Option.map_some, hv]
        · rw [InMemoryStore.versionOf, hafter, Option.map_some, claimedRecord, hv]
    · exact ⟨Nat.zero_le _, fun h => absurd h (Nat.not_succ_le_zero _)⟩
  | _ => exact ⟨Nat.zero_le _, fun h => absurd h (Nat.not_succ_le_zero _)⟩

/-- What a run keeps about its past. -/
structure Fence (init : InMemoryStore) (log : List (Served InMemoryStore)) (s : InMemoryStore) :
    Prop where
  kept : s.Kept
  left : ∀ e v, departuresIn e v log ≤ 1 ∧
    (1 ≤ departuresIn e v log → ∃ n, s.versionOf e = some n ∧ v < n)
  current : ∀ record ∈ log.flatMap Served.reads, Current s record
  oneRecord : ∀ a ∈ log.flatMap Served.reads, ∀ b ∈ log.flatMap Served.reads,
    a.effectId = b.effectId → a.version = b.version → a = b
  climbs : ∀ e, ((log.map Served.store ++ [init]).map (·.versionOf e)).IsChain
    fun after before => Climbs before after
  last : (log.map Served.store ++ [init]).head? = some s

theorem Fence.leftOnce_call (h : Fence init log s) (c : TimedCall) (e : Str) (v : Nat) :
    let x : Served InMemoryStore := ⟨c, (InMemoryStore.serve c s).1, (InMemoryStore.serve c s).2⟩
    departuresIn e v (x :: log) ≤ 1 ∧ (1 ≤ departuresIn e v (x :: log) →
      ∃ n, (InMemoryStore.serve c s).2.versionOf e = some n ∧ v < n) := by
  intro x
  obtain ⟨hle, hdeparts⟩ := departure_spec h.kept c e v
  obtain ⟨hpast, hversion⟩ := h.left e v
  have hsum : departuresIn e v (x :: log) = x.departures e v + departuresIn e v log := by
    simp [departuresIn]
  rw [hsum]
  by_cases hx : 1 ≤ x.departures e v
  · obtain ⟨hbefore, hafter⟩ := hdeparts hx
    have hzero : departuresIn e v log = 0 := by
      by_contra hne
      obtain ⟨n, hn, hlt⟩ := hversion (by omega)
      rw [hbefore] at hn
      cases hn
      omega
    refine ⟨?_, fun _ => ⟨v + 1, hafter, Nat.lt_succ_self v⟩⟩
    rw [hzero, Nat.add_zero]
    exact hle
  · refine ⟨by omega, fun hone => ?_⟩
    obtain ⟨n, hn, hlt⟩ := hversion (by omega)
    have hclimbs := (InMemoryStore.serve_records h.kept c e).climbs
    rw [show (s.records.get? e).map EffectRecord.version = some n from hn] at hclimbs
    generalize hafter : ((InMemoryStore.serve c s).2.records.get? e).map EffectRecord.version =
      after at hclimbs
    cases hclimbs with
    | same => exact ⟨n, hafter, hlt⟩
    | next => exact ⟨n + 1, hafter, by omega⟩

/-- **Every call keeps the fence.** -/
theorem Fence.call (h : Fence init log s) (c : TimedCall) :
    Fence init (⟨c, (InMemoryStore.serve c s).1, (InMemoryStore.serve c s).2⟩ :: log)
      (InMemoryStore.serve c s).2 := by
  have hadvances := advances_serve h.kept c
  have hnew : ∀ record ∈ Served.reads ⟨c, (InMemoryStore.serve c s).1, (InMemoryStore.serve c s).2⟩,
      (InMemoryStore.serve c s).2.records.get? record.effectId = some record := fun _ => reads_current h.kept c
  refine ⟨(InMemoryStore.serve_spec h.kept c).1, h.leftOnce_call c, fun record hr => ?_,
    fun a ha b hb hid hv => ?_, fun e => ?_, rfl⟩
  · rcases List.mem_append.mp hr with hr | hr
    · exact .of_get (hnew record hr)
    · exact (h.current record hr).advance hadvances
  · -- an earlier reading of the current version is the current record
    have old : ∀ a ∈ log.flatMap Served.reads, ∀ b : EffectRecord,
        (InMemoryStore.serve c s).2.records.get? b.effectId = some b → a.effectId = b.effectId →
        a.version = b.version → a = b := fun a ha b hb hid hv => by
      obtain ⟨current, hget, -, heq⟩ := (h.current a ha).advance hadvances
      rw [hid, hb] at hget
      cases hget
      exact heq hv
    rcases List.mem_append.mp ha with ha | ha <;> rcases List.mem_append.mp hb with hb | hb
    · have hab := hnew a ha
      rw [hid, hnew b hb] at hab
      exact (Option.some.inj hab).symm
    · exact (old b hb a (hnew a ha) hid.symm hv.symm).symm
    · exact old a ha b (hnew b hb) hid hv
    · exact h.oneRecord a ha b hb hid hv
  · have hclimbs := (InMemoryStore.serve_records h.kept c e).climbs
    have hchain := h.climbs e
    have hlast := h.last
    show (_ :: (log.map Served.store ++ [init]).map (·.versionOf e)).IsChain _
    cases hl : log.map Served.store ++ [init] with
    | nil =>
      rw [hl] at hlast
      cases hlast
    | cons first rest =>
      rw [hl] at hlast hchain
      cases hlast
      exact List.isChain_cons_cons.mpr ⟨hclimbs, hchain⟩

theorem fence_of_run {hashes : Hashes} {tenantKeyProvider : TenantKeyProvider}
    (h : StoreRun InMemoryStore.serve (.initial hashes tenantKeyProvider) log s) :
    Fence (.initial hashes tenantKeyProvider) log s := by
  induction h with
  | start =>
    exact ⟨InMemoryStore.kept_initial .., fun _ _ => ⟨Nat.zero_le _, fun h => absurd h (Nat.not_succ_le_zero 0)⟩,
      fun _ hr => (nomatch hr), fun _ ha => (nomatch ha), fun _ => List.isChain_singleton _, rfl⟩
  | call c _ ih => exact ih.call c

/-- Whoever comes with a version that has been left is told. -/
theorem InMemoryStore.recordForUpdate_conflict {v : Nat} {n : Nat} (hn : s.versionOf e = some n)
    (hlt : v < n) : ∃ message, s.recordForUpdate e v = .error (.versionConflict message) := by
  obtain ⟨record, hget, rfl⟩ := Option.map_eq_some_iff.mp hn
  unfold InMemoryStore.recordForUpdate
  rw [hget]
  simp only
  rw [if_pos (by omega)]
  exact ⟨_, rfl⟩

/-- **Version fencing loses no update**, in any run of the in-memory store. -/
theorem version_fenced {hashes : Hashes} {tenantKeyProvider : TenantKeyProvider}
    (h : StoreRun InMemoryStore.serve (.initial hashes tenantKeyProvider) log s) :
    VersionFenced (.initial hashes tenantKeyProvider) log s := by
  have hfence := fence_of_run h
  refine ⟨fun e v => (hfence.left e v).1, hfence.climbs, hfence.oneRecord, ?_, ?_, ?_⟩
  · intro effectId expectedVersion target data now uuid hno
    simp only [InMemoryStore.serve]
    rcases s.transition_cases now effectId expectedVersion target data with
      ⟨exc, heq, -⟩ | ⟨record, hget, hv, ha, -⟩
    · rw [heq]
      exact ⟨exc, rfl⟩
    · rw [hno record hget hv] at ha
      cases ha
  · intro effectId expectedVersion workerId now uuid hno
    simp only [InMemoryStore.serve]
    rcases s.startAttempt_cases now effectId expectedVersion workerId with
      ⟨exc, heq⟩ | ⟨record, hget, hv, -⟩
    · rw [heq]
      exact ⟨exc, rfl⟩
    · exact absurd hv (hno record hget)
  · intro e v hleft now uuid
    obtain ⟨n, hn, hlt⟩ := (hfence.left e v).2 hleft
    obtain ⟨message, hconflict⟩ := InMemoryStore.recordForUpdate_conflict hn hlt
    constructor
    · intro target data
      simp only [InMemoryStore.serve, InMemoryStore.transition, hconflict]
      exact ⟨message, rfl⟩
    · intro workerId
      simp only [InMemoryStore.serve, InMemoryStore.startAttempt, hconflict]
      exact ⟨message, rfl⟩

/-- The sample operation is reserved, and then moved to `dispatching`. -/
theorem version_fenced_sample : ∃ log s,
    StoreRun InMemoryStore.serve (.initial sampleHashes sampleKeys) log s ∧
    departuresIn (effectIdOf 1) 0 log = 1 ∧
    VersionFenced (.initial sampleHashes sampleKeys) log s :=
  have hrun := StoreRun.call ⟨.transition (effectIdOf 1) 0 .dispatching [], sampleTime 0, []⟩
    (.call ⟨.reserve sampleTenant sampleRequest (sampleContract .unsafeClass 0), sampleTime 0, []⟩
      .start)
  ⟨_, _, hrun, by decide +kernel, version_fenced hrun⟩

end
end EffectBroker
