import EffectBroker.MemoryStore

/-!
# What the operations of the in-memory store do

For each operation, everything it can do to the tables, said once: `reserve_cases`,
`claimDue_spec`, `startAttempt_cases` and `transition_cases`.
-/
namespace EffectBroker
open Python

namespace InMemoryStore

/-! ## Events and attempts -/

@[simp] theorem appendEvent_records (s : InMemoryStore) (effectId : Str) (eventType : EventType)
    (version : Nat) (data : Items) (at_ : Datetime) :
    (s.appendEvent effectId eventType version data at_).records = s.records := rfl

@[simp] theorem appendEvent_attempts (s : InMemoryStore) (effectId : Str) (eventType : EventType)
    (version : Nat) (data : Items) (at_ : Datetime) :
    (s.appendEvent effectId eventType version data at_).attempts = s.attempts := rfl

@[simp] theorem appendEvent_nextEffectId (s : InMemoryStore) (effectId : Str)
    (eventType : EventType) (version : Nat) (data : Items) (at_ : Datetime) :
    (s.appendEvent effectId eventType version data at_).nextEffectId = s.nextEffectId := rfl

@[simp] theorem appendEvent_identity (s : InMemoryStore) (effectId : Str)
    (eventType : EventType) (version : Nat) (data : Items) (at_ : Datetime) :
    (s.appendEvent effectId eventType version data at_).identity = s.identity := rfl

theorem eventsOf_appendEvent (s : InMemoryStore) (effectId e : Str) (eventType : EventType)
    (version : Nat) (data : Items) (at_ : Datetime) :
    (s.appendEvent effectId eventType version data at_).eventsOf e =
      if e = effectId then
        s.eventsOf effectId ++
          [⟨effectId, (s.eventsOf effectId).length + 1, eventType, version, at_, data⟩]
      else s.eventsOf e := by
  simp only [eventsOf, appendEvent, Dict.get?_set]
  split <;> rfl

/-! ## `reserve` -/

/-- A reservation raises, replays an effect of the ledger, or inserts a new one. -/
theorem reserve_cases (s : InMemoryStore) (now : Datetime) (tenantId : Str)
    (request : EffectRequest) (contract : EffectContract) :
    (∃ exc next, s.reserve now tenantId request contract =
      (.error exc, { s with nextEffectId := next }) ∧ s.nextEffectId ≤ next) ∨
    (∃ existing, s.reserve now tenantId request contract = (.ok ⟨existing, false, true⟩, s) ∧
      ∃ effectId, s.identity.get? (tenantId, request.operationKey) = some effectId ∧
        s.records.get? effectId = some existing) ∨
    (∃ record : EffectRecord, s.reserve now tenantId request contract =
        (.ok ⟨record, true, false⟩,
          { s with nextEffectId := s.nextEffectId + 1 }.insertEffect record) ∧
      record.effectId = effectIdOf s.nextEffectId ∧ record.tenantId = tenantId ∧
      record.request = request ∧ record.contract = contract ∧ record.status = .prepared ∧
      record.version = 0 ∧ record.createdAt = now ∧
      s.identity.get? (tenantId, request.operationKey) = none) := by
  unfold reserve
  cases hd : requestHash s.hashes request.tool request.arguments contract.name contract.version with
  | error exc => exact .inl ⟨exc, _, rfl, le_rfl⟩
  | ok digest =>
    cases hi : s.identity.get? (tenantId, request.operationKey) with
    | some existingId =>
      simp only
      cases hr : s.records.get? existingId with
      | none => exact .inl ⟨_, _, rfl, le_rfl⟩
      | some existing =>
        simp only
        split
        · exact .inl ⟨_, _, rfl, le_rfl⟩
        · exact .inr (.inl ⟨existing, rfl, existingId, rfl, hr⟩)
    | none =>
      simp only
      split
      · exact .inl ⟨_, _, rfl, Nat.le_succ _⟩
      · exact .inr (.inr ⟨_, rfl, rfl, rfl, rfl, rfl, rfl, rfl, rfl, trivial⟩)

theorem insertEffect_records (s : InMemoryStore) (record : EffectRecord) (e : Str) :
    (s.insertEffect record).records.get? e =
      if e = record.effectId then some record else s.records.get? e := by
  simp only [insertEffect, appendEvent_records, Dict.get?_set]

theorem insertEffect_attempts (s : InMemoryStore) (record : EffectRecord) (e : Str) :
    (s.insertEffect record).attemptsOf e = if e = record.effectId then [] else s.attemptsOf e := by
  simp only [attemptsOf, insertEffect, appendEvent_attempts, Dict.get?_set]
  split <;> rfl

theorem insertEffect_events (s : InMemoryStore) (record : EffectRecord) (e : Str) :
    (s.insertEffect record).eventsOf e =
      if e = record.effectId then
        [⟨e, 1, .reserved, record.version, record.createdAt,
          [(text "status", .str record.status.value)]⟩]
      else s.eventsOf e := by
  unfold insertEffect
  rw [eventsOf_appendEvent]
  split
  · rename_i h
    subst h
    simp [eventsOf]
  · rename_i h
    simp [eventsOf, Dict.get?_set_ne _ h]

/-! ## `transition` and `start_attempt` -/

theorem recordForUpdate_ok {s : InMemoryStore} {effectId : Str} {expectedVersion : Int}
    {record : EffectRecord} :
    s.recordForUpdate effectId expectedVersion = .ok record ↔
      s.records.get? effectId = some record ∧ (record.version : Int) = expectedVersion := by
  unfold recordForUpdate
  cases s.records.get? effectId with
  | none => simp
  | some r =>
    simp only [Option.some.injEq]
    split
    · rename_i hv
      simp only [reduceCtorEq, false_iff, not_and]
      rintro rfl
      exact hv
    · rename_i hv
      simp only [Except.ok.injEq]
      exact ⟨fun h => ⟨h, h ▸ not_not.mp hv⟩, fun h => h.1⟩

theorem recordForUpdate_error {s : InMemoryStore} {effectId : Str} {expectedVersion : Int}
    {exc : Exc} (h : s.recordForUpdate effectId expectedVersion = .error exc) :
    exc.isAdapterError = false := by
  unfold recordForUpdate at h
  split at h
  · cases h
    rfl
  · split at h <;> cases h
    rfl

/-- The store that a successful transition leaves. -/
def moveRecord (s : InMemoryStore) (record : EffectRecord) (now : Datetime) (effectId : Str)
    (target : EffectStatus) (data : Items) : InMemoryStore :=
  let updated := movedRecord record target now
  let s := { s with records := s.records.set effectId updated }
  let s := if target.isClaimable then s else { s with leases := s.leases.erase effectId }
  s.appendEvent effectId .transition updated.version (transitionData record.status target data) now

/-- A transition raises and changes nothing, or moves the current record along an edge. -/
theorem transition_cases (s : InMemoryStore) (now : Datetime) (effectId : Str)
    (expectedVersion : Int) (target : EffectStatus) (data : Items) :
    (∃ exc, s.transition now effectId expectedVersion target data = (.error exc, s) ∧
      exc.isAdapterError = false) ∨
    (∃ record, s.records.get? effectId = some record ∧ (record.version : Int) = expectedVersion ∧
      isAllowed record.status target = true ∧
      s.transition now effectId expectedVersion target data =
        (.ok (movedRecord record target now), s.moveRecord record now effectId target data)) := by
  unfold transition
  cases hr : s.recordForUpdate effectId expectedVersion with
  | error exc => exact .inl ⟨exc, rfl, recordForUpdate_error hr⟩
  | ok record =>
    obtain ⟨hget, hv⟩ := recordForUpdate_ok.mp hr
    simp only
    by_cases ha : isAllowed record.status target = true
    · rw [assertTransition_ok.mpr ha]
      exact .inr ⟨record, hget, hv, ha, rfl⟩
    · refine .inl ⟨.invalidTransition record.status target, ?_, rfl⟩
      simp only [assertTransition, ha]
      rfl

/-- A transition along an edge from the current version succeeds. -/
theorem transition_ok {s : InMemoryStore} {effectId : Str} {record : EffectRecord}
    {target : EffectStatus} (hget : s.records.get? effectId = some record)
    (ha : isAllowed record.status target = true) (now : Datetime) (data : Items) :
    s.transition now effectId record.version target data =
      (.ok (movedRecord record target now), s.moveRecord record now effectId target data) := by
  unfold transition
  rw [recordForUpdate_ok.mpr ⟨hget, rfl⟩]
  simp only [assertTransition_ok.mpr ha]
  rfl

theorem moveRecord_records (s : InMemoryStore) (record : EffectRecord) (now : Datetime)
    (effectId : Str) (target : EffectStatus) (data : Items) (e : Str) :
    (s.moveRecord record now effectId target data).records.get? e =
      if e = effectId then some (movedRecord record target now) else s.records.get? e := by
  simp only [moveRecord, appendEvent_records]
  split <;> exact Dict.get?_set ..

@[simp] theorem moveRecord_attempts (s : InMemoryStore) (record : EffectRecord) (now : Datetime)
    (effectId : Str) (target : EffectStatus) (data : Items) :
    (s.moveRecord record now effectId target data).attempts = s.attempts := by
  simp only [moveRecord, appendEvent_attempts]
  split <;> rfl

@[simp] theorem moveRecord_nextEffectId (s : InMemoryStore) (record : EffectRecord) (now : Datetime)
    (effectId : Str) (target : EffectStatus) (data : Items) :
    (s.moveRecord record now effectId target data).nextEffectId = s.nextEffectId := by
  simp only [moveRecord, appendEvent_nextEffectId]
  split <;> rfl

@[simp] theorem moveRecord_identity (s : InMemoryStore) (record : EffectRecord) (now : Datetime)
    (effectId : Str) (target : EffectStatus) (data : Items) :
    (s.moveRecord record now effectId target data).identity = s.identity := by
  simp only [moveRecord, appendEvent_identity]
  split <;> rfl

theorem moveRecord_events (s : InMemoryStore) (record : EffectRecord) (now : Datetime)
    (effectId : Str) (target : EffectStatus) (data : Items) (e : Str) :
    (s.moveRecord record now effectId target data).eventsOf e =
      if e = effectId then
        s.eventsOf effectId ++ [⟨effectId, (s.eventsOf effectId).length + 1, .transition,
          record.version + 1, now, transitionData record.status target data⟩]
      else s.eventsOf e := by
  unfold moveRecord
  by_cases hc : target.isClaimable
  · simp only [hc, if_true]
    exact eventsOf_appendEvent ..
  · simp only [hc]
    exact eventsOf_appendEvent ..

/-- The store that a new attempt row leaves. -/
def addAttempt (s : InMemoryStore) (record : EffectRecord) (now : Datetime) (effectId workerId : Str) :
    InMemoryStore :=
  let ordinal := (s.attemptsOf effectId).length + 1
  let attempt : Attempt :=
    ⟨attemptIdOf effectId ordinal, effectId, ordinal, workerId, record.version, now⟩
  let s := { s with attempts := s.attempts.set effectId (s.attemptsOf effectId ++ [attempt]) }
  s.appendEvent effectId .attemptStarted record.version
    [(text "attempt_id", .str attempt.attemptId), (text "ordinal", .int ordinal),
      (text "worker_id", .str workerId)] now

/-- `start_attempt` raises and changes nothing, or adds the next attempt row of the
current version. -/
theorem startAttempt_cases (s : InMemoryStore) (now : Datetime) (effectId : Str)
    (expectedVersion : Int) (workerId : Str) :
    (∃ exc, s.startAttempt now effectId expectedVersion workerId = (.error exc, s)) ∨
    (∃ record, s.records.get? effectId = some record ∧ (record.version : Int) = expectedVersion ∧
      s.startAttempt now effectId expectedVersion workerId =
        (.ok (attemptIdOf effectId ((s.attemptsOf effectId).length + 1)),
          s.addAttempt record now effectId workerId)) := by
  unfold startAttempt
  cases hr : s.recordForUpdate effectId expectedVersion with
  | error exc => exact .inl ⟨exc, rfl⟩
  | ok record =>
    obtain ⟨hget, hv⟩ := recordForUpdate_ok.mp hr
    exact .inr ⟨record, hget, hv, rfl⟩

@[simp] theorem addAttempt_records (s : InMemoryStore) (record : EffectRecord) (now : Datetime)
    (effectId workerId : Str) : (s.addAttempt record now effectId workerId).records = s.records := rfl

@[simp] theorem addAttempt_nextEffectId (s : InMemoryStore) (record : EffectRecord) (now : Datetime)
    (effectId workerId : Str) :
    (s.addAttempt record now effectId workerId).nextEffectId = s.nextEffectId := rfl

@[simp] theorem addAttempt_identity (s : InMemoryStore) (record : EffectRecord) (now : Datetime)
    (effectId workerId : Str) :
    (s.addAttempt record now effectId workerId).identity = s.identity := rfl

theorem addAttempt_attempts (s : InMemoryStore) (record : EffectRecord) (now : Datetime)
    (effectId workerId e : Str) :
    (s.addAttempt record now effectId workerId).attemptsOf e =
      if e = effectId then
        s.attemptsOf effectId ++ [⟨attemptIdOf effectId ((s.attemptsOf effectId).length + 1),
          effectId, (s.attemptsOf effectId).length + 1, workerId, record.version, now⟩]
      else s.attemptsOf e := by
  simp only [addAttempt, attemptsOf, appendEvent_attempts, Dict.get?_set]
  split <;> rfl

theorem addAttempt_events (s : InMemoryStore) (record : EffectRecord) (now : Datetime)
    (effectId workerId e : Str) :
    ∃ events, (s.addAttempt record now effectId workerId).eventsOf e = s.eventsOf e ++ events ∧
      ∀ event ∈ events, event.eventType ≠ .transition := by
  unfold addAttempt
  rw [eventsOf_appendEvent]
  split
  · rename_i h
    subst h
    exact ⟨_, rfl, by simp⟩
  · exact ⟨[], (List.append_nil _).symm, by simp⟩

/-- The attempt rows of an effect, newest first: ordinal, version and attempt id. -/
def rowsOf (s : InMemoryStore) (e : Str) : List (Nat × Int × Str) :=
  (s.attemptsOf e).reverse.map fun row => (row.ordinal, (row.version : Int), row.attemptId)

theorem length_rowsOf (s : InMemoryStore) (e : Str) :
    (s.rowsOf e).length = (s.attemptsOf e).length := by
  rw [rowsOf, List.length_map, List.length_reverse]

theorem rowsOf_congr {s s' : InMemoryStore} (h : s'.attempts = s.attempts) (e : Str) :
    s'.rowsOf e = s.rowsOf e := by
  simp only [rowsOf, attemptsOf, h]

theorem insertEffect_rows (s : InMemoryStore) (record : EffectRecord) (e : Str) :
    (s.insertEffect record).rowsOf e = if e = record.effectId then [] else s.rowsOf e := by
  unfold rowsOf
  rw [insertEffect_attempts]
  split <;> rfl

theorem addAttempt_rows (s : InMemoryStore) (record : EffectRecord) (now : Datetime)
    (effectId workerId e : Str) :
    (s.addAttempt record now effectId workerId).rowsOf e =
      if e = effectId then
        ((s.attemptsOf effectId).length + 1, (record.version : Int),
          attemptIdOf effectId ((s.attemptsOf effectId).length + 1)) :: s.rowsOf effectId
      else s.rowsOf e := by
  unfold rowsOf
  rw [addAttempt_attempts]
  split
  · rw [List.reverse_append]
    rfl
  · rfl

/-! ## `claim_due` -/

/-- What claims may do to a store: each effect is claimed once, or left alone. -/
structure Claims (s s' : InMemoryStore) (now : Datetime) : Prop where
  records : ∀ e, s'.records.get? e = s.records.get? e ∨
    ∃ record, s.records.get? e = some record ∧ record.status.isClaimable ∧
      s'.records.get? e = some (claimedRecord record now)
  events : ∀ e, ∃ events, s'.eventsOf e = s.eventsOf e ++ events ∧
    ∀ event ∈ events, event.eventType ≠ .transition
  attempts : s'.attempts = s.attempts
  identity : s'.identity = s.identity
  nextEffectId : s'.nextEffectId = s.nextEffectId

theorem Claims.refl (s : InMemoryStore) (now : Datetime) : Claims s s now :=
  ⟨fun _ => .inl rfl, fun _ => ⟨[], (List.append_nil _).symm, by simp⟩, rfl, rfl, rfl⟩

/-- The store after one effect of the loop is claimed. -/
def addClaim (s : InMemoryStore) (effectId : Str) (record : EffectRecord) (workerId : Str)
    (now expiresAt : Datetime) : InMemoryStore :=
  let updated := claimedRecord record now
  let s := { s with records := s.records.set effectId updated }
  let s := { s with leases := s.leases.set effectId ⟨workerId, expiresAt⟩ }
  s.appendEvent effectId .claimed updated.version
    [(text "worker_id", .str workerId), (text "lease_expires_at", .str expiresAt.isoformat)] now

theorem addClaim_records (s : InMemoryStore) (effectId : Str) (record : EffectRecord)
    (workerId : Str) (now expiresAt : Datetime) (e : Str) :
    (s.addClaim effectId record workerId now expiresAt).records.get? e =
      if e = effectId then some (claimedRecord record now) else s.records.get? e :=
  Dict.get?_set ..

theorem addClaim_events (s : InMemoryStore) (effectId : Str) (record : EffectRecord)
    (workerId : Str) (now expiresAt : Datetime) (e : Str) :
    ∃ events, (s.addClaim effectId record workerId now expiresAt).eventsOf e =
      s.eventsOf e ++ events ∧ ∀ event ∈ events, event.eventType ≠ .transition := by
  unfold addClaim
  rw [eventsOf_appendEvent]
  split
  · rename_i h
    subst h
    exact ⟨_, rfl, by simp⟩
  · exact ⟨[], (List.append_nil _).symm, by simp⟩

/-- What the loop does from any point on: it claims effects it has not visited, and
returns them as they now are. -/
structure LoopClaims (now : Datetime) (items : List (Str × EffectRecord))
    (claimed : List EffectRecord) (s : InMemoryStore)
    (out : Except Exc (List EffectRecord) × InMemoryStore) : Prop where
  claims : Claims s out.2 now
  frame : ∀ e ∉ items.map Prod.fst, out.2.records.get? e = s.records.get? e
  results : ∀ results, out.1 = .ok results → ∀ r ∈ results, r ∈ claimed ∨
    ∃ e record, (e, record) ∈ items ∧ record.status.isClaimable ∧ r = claimedRecord record now ∧
      out.2.records.get? e = some r

section
variable {now : Datetime} {effectId : Str} {record : EffectRecord}
  {items rest : List (Str × EffectRecord)} {claimed : List EffectRecord} {s : InMemoryStore}
  {out : Except Exc (List EffectRecord) × InMemoryStore}

theorem LoopClaims.stop : LoopClaims now items claimed s (.ok claimed, s) := by
  refine ⟨.refl s now, fun _ _ => rfl, fun results h r hr => .inl ?_⟩
  cases h
  exact hr

theorem LoopClaims.skip {p : Str × EffectRecord} (h : LoopClaims now rest claimed s out) :
    LoopClaims now (p :: rest) claimed s out := by
  refine ⟨h.claims, fun e he => h.frame e fun hm => he (List.mem_cons_of_mem _ hm), ?_⟩
  intro results hok r hr
  rcases h.results results hok r hr with hc | ⟨e, record', hm, hlast⟩
  · exact .inl hc
  · exact .inr ⟨e, record', List.mem_cons_of_mem _ hm, hlast⟩

theorem LoopClaims.overflow {exc : Exc} (hget : s.records.get? effectId = some record)
    (hclaimable : record.status.isClaimable) :
    LoopClaims now ((effectId, record) :: rest) claimed s
      (.error exc, { s with records := s.records.set effectId (claimedRecord record now) }) := by
  refine ⟨⟨fun e => ?_, fun e => ⟨[], (List.append_nil _).symm, by simp⟩, rfl, rfl, rfl⟩,
    fun e he => ?_, fun results h => nomatch h⟩
  · by_cases heq : e = effectId
    · subst heq
      exact .inr ⟨record, hget, hclaimable, Dict.get?_set_self ..⟩
    · exact .inl (Dict.get?_set_ne _ heq _)
  · have hne : e ≠ effectId := fun h => he (h ▸ List.mem_cons_self ..)
    exact Dict.get?_set_ne _ hne _

theorem LoopClaims.claim {workerId : Str} {expiresAt : Datetime}
    (hget : s.records.get? effectId = some record) (hclaimable : record.status.isClaimable)
    (hnot : effectId ∉ rest.map Prod.fst)
    (h : LoopClaims now rest (claimed ++ [claimedRecord record now])
      (s.addClaim effectId record workerId now expiresAt) out) :
    LoopClaims now ((effectId, record) :: rest) claimed s out := by
  have hself := (h.frame effectId hnot).trans (addClaim_records ..)
  rw [if_pos rfl] at hself
  refine ⟨⟨fun e => ?_, fun e => ?_, h.claims.attempts, h.claims.identity,
    h.claims.nextEffectId⟩, fun e he => ?_, fun results hok r hr => ?_⟩
  · by_cases heq : e = effectId
    · subst heq
      exact .inr ⟨record, hget, hclaimable, hself⟩
    · have := h.claims.records e
      rwa [addClaim_records, if_neg heq] at this
  · obtain ⟨events, he, hne⟩ := h.claims.events e
    obtain ⟨events', he', hne'⟩ := addClaim_events s effectId record workerId now expiresAt e
    refine ⟨events' ++ events, by rw [he, he', List.append_assoc], fun event hm => ?_⟩
    rcases List.mem_append.mp hm with hm | hm
    · exact hne' event hm
    · exact hne event hm
  · obtain ⟨heq, hm⟩ := not_or.mp (fun hor => he (List.mem_cons.mpr hor))
    rw [h.frame e hm, addClaim_records, if_neg heq]
  · rcases h.results results hok r hr with hc | ⟨e, record', hm, hlast⟩
    · rcases List.mem_append.mp hc with hc | hc
      · exact .inl hc
      · obtain rfl := List.mem_singleton.mp hc
        exact .inr ⟨effectId, record, List.mem_cons_self .., hclaimable, rfl, hself⟩
    · exact .inr ⟨e, record', List.mem_cons_of_mem _ hm, hlast⟩

end

theorem claimLoop_claims (workerId : Str) (now : Datetime) (leaseFor : Timedelta) (limit : Int)
    (items : List (Str × EffectRecord)) (s : InMemoryStore) (claimed : List EffectRecord)
    (hnodup : (items.map Prod.fst).Nodup) (hitems : ∀ p ∈ items, s.records.get? p.1 = some p.2) :
    LoopClaims now items claimed s (claimLoop workerId now leaseFor limit items s claimed) := by
  induction items generalizing s claimed with
  | nil => exact .stop
  | cons p rest ih =>
    obtain ⟨effectId, record⟩ := p
    obtain ⟨hnot, hrest⟩ := List.nodup_cons.mp hnodup
    have hget : s.records.get? effectId = some record := hitems _ (List.mem_cons_self ..)
    have skip : LoopClaims now ((effectId, record) :: rest) claimed s
        (claimLoop workerId now leaseFor limit rest s claimed) :=
      (ih s claimed hrest fun p hp => hitems p (List.mem_cons_of_mem _ hp)).skip
    rw [claimLoop]
    split
    · exact .stop
    · split
      · exact skip
      · rename_i hclaimable
        have hclaimable : record.status.isClaimable = true := by simpa using hclaimable
        split
        · exact skip
        · cases hadd : now.add leaseFor with
          | none => exact .overflow hget hclaimable
          | some expiresAt =>
            refine .claim hget hclaimable hnot (ih (s.addClaim effectId record workerId now expiresAt)
              _ hrest fun p hp => ?_)
            have hne : p.1 ≠ effectId := fun h => hnot (List.mem_map.mpr ⟨p, hp, h⟩)
            rw [addClaim_records, if_neg hne]
            exact hitems p (List.mem_cons_of_mem _ hp)

/-- `claim_due` claims effects, and returns claimed effects as they now are. -/
theorem claimDue_spec (s : InMemoryStore) (workerId : Str) (now : Datetime) (leaseFor : Timedelta)
    (limit : Int) :
    Claims s (s.claimDue workerId now leaseFor limit).2 now ∧
    ∀ results, (s.claimDue workerId now leaseFor limit).1 = .ok results → ∀ r ∈ results,
      ∃ e record, s.records.get? e = some record ∧ record.status.isClaimable ∧
        r = claimedRecord record now ∧
        (s.claimDue workerId now leaseFor limit).2.records.get? e = some r := by
  unfold claimDue
  split
  · refine ⟨.refl s now, fun results h r hr => ?_⟩
    cases h
    cases hr
  · have h := claimLoop_claims workerId now leaseFor limit s.records.items s [] s.records.nodup
      fun p hp => Dict.get?_of_mem_items hp
    refine ⟨h.claims, fun results hok r hr => ?_⟩
    rcases h.results results hok r hr with hc | ⟨e, record, hm, hlast⟩
    · cases hc
    · exact ⟨e, record, Dict.get?_of_mem_items hm, hlast⟩

end InMemoryStore
end EffectBroker
