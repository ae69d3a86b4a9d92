import EffectBroker.Cancellation

/-!
# Batches of a worker

A worker claims a batch of effects and dispatches one after another.  If nobody else
advances an effect that it has claimed and not settled yet, then every request of the loop
is granted, so the loop ends with a result for each effect, and does for each what it would
do if it had claimed that effect alone.  Nothing in the loop catches a lost race, though:
then the whole batch ends there.
-/
namespace EffectBroker
open Python Concurrency

/-- The effects that a worker has claimed and not settled, read off its exchanges, which
are newest first. -/
def awaiting : List (Exchange Response) → List EffectRecord
  | [] => []
  | ⟨.claimDue .., (.ok claimed : Except Exc (List EffectRecord))⟩ :: _ => claimed
  | ⟨.transition effectId _ target _, (.ok after : Except Exc EffectRecord)⟩ :: t =>
    let others := (awaiting t).filter (·.effectId ≠ effectId)
    if target = .dispatching then after :: others else others
  | _ :: t => awaiting t

/-- The exchanges of one effect, newest first: those of the loop on a batch of this effect
alone.  They enter it into `dispatching`, start an attempt, and settle it. -/
structure SettledAlone (workerId : Str) (effect result : EffectRecord)
    (t : List (Exchange Response)) : Prop where
  effectId : result.effectId = effect.effectId
  traces : (dispatchAll workerId [effect]).Traces t.reverse (.ok [result])
  entered : ∃ data, ∃ after : EffectRecord, ⟨.transition effect.effectId effect.version .dispatching data,
    (.ok after : Except Exc EffectRecord)⟩ ∈ t
  attempted : ∃ version, ∃ attemptId : Str, ⟨.startAttempt effect.effectId version workerId,
    (.ok attemptId : Except Exc Str)⟩ ∈ t
  settled : ∃ version data, ⟨.transition effect.effectId version result.status data,
    (.ok result : Except Exc EffectRecord)⟩ ∈ t ∧ isAllowed .dispatching result.status

/-- The exchanges of a batch are those of its effects, one after another. -/
inductive Batch (workerId : Str) : List EffectRecord → List EffectRecord →
    List (Exchange Response) → Prop
  | nil : Batch workerId [] [] []
  | cons {effect result claimed results t rest} : SettledAlone workerId effect result t →
      Batch workerId claimed results rest →
      Batch workerId (effect :: claimed) (result :: results) (rest ++ t)

theorem Batch.effectIds {workerId : Str} {claimed results : List EffectRecord}
    {t : List (Exchange Response)} (h : Batch workerId claimed results t) :
    results.map EffectRecord.effectId = claimed.map EffectRecord.effectId := by
  induction h with
  | nil => rfl
  | cons hsettled _ ih => rw [List.map_cons, List.map_cons, ih, hsettled.effectId]

namespace InMemoryStore
variable {s : InMemoryStore}

/-- A transition of the record that the store has is granted. -/
theorem transition_of_get {e : Str} {record : EffectRecord} (hget : s.records.get? e = some record)
    {target : EffectStatus} (hallowed : isAllowed record.status target = true) (now : Datetime)
    (data : Items) : s.transition now e record.version target data =
      (.ok (movedRecord record target now), s.moveRecord record now e target data) := by
  rcases s.transition_cases now e record.version target data with
    ⟨exc, heq, -⟩ | ⟨record', hget', -, -, heq⟩
  · unfold transition at heq
    rw [recordForUpdate_ok.mpr ⟨hget, rfl⟩] at heq
    simp only [assertTransition_ok.mpr hallowed] at heq
    cases congrArg Prod.fst heq
  · cases hget.symm.trans hget'
    exact heq

/-- An attempt on the record that the store has starts. -/
theorem startAttempt_of_get {e : Str} {record : EffectRecord} (hget : s.records.get? e = some record)
    (now : Datetime) (workerId : Str) : ∃ attemptId,
      s.startAttempt now e record.version workerId =
        (.ok attemptId, s.addAttempt record now e workerId) := by
  rcases s.startAttempt_cases now e record.version workerId with
    ⟨exc, heq⟩ | ⟨record', hget', -, heq⟩
  · unfold startAttempt at heq
    rw [recordForUpdate_ok.mpr ⟨hget, rfl⟩] at heq
    cases congrArg Prod.fst heq
  · cases hget.symm.trans hget'
    exact ⟨_, heq⟩

/-- The effects of a claim are different ones, and the store has them as they are returned. -/
theorem claimDue_results (h : s.Kept) {workerId : Str} {now : Datetime} {leaseFor : Timedelta}
    {limit : Int} {claimed : List EffectRecord}
    (hok : (s.claimDue workerId now leaseFor limit).1 = .ok claimed) :
    (claimed.map EffectRecord.effectId).Nodup ∧ ∀ r ∈ claimed, r.status.isClaimable = true ∧
      (s.claimDue workerId now leaseFor limit).2.records.get? r.effectId = some r := by
  obtain ⟨-, hresults⟩ := s.claimDue_spec workerId now leaseFor limit
  refine ⟨?_, fun r hr => ?_⟩
  · rcases claimDue_cases h workerId now leaseFor limit with
      ⟨results, heq, rfl⟩ | ⟨expiresAt, -, -, heq⟩ | ⟨effectId, record, -, -, -, -, heq⟩ <;>
      rw [heq] at hok <;> cases hok
    · exact List.nodup_nil
    · obtain ⟨hnodup, hitems⟩ := picks_items h now limit.toNat
      rw [List.map_map]
      refine (List.map_congr_left fun item hm => ?_) ▸ hnodup
      exact (hitems item hm).2.1.symm
  · obtain ⟨e, record, hget, hclaimable, hclaimed, hget'⟩ := hresults claimed hok r hr
    have hid : r.effectId = e := by
      rw [hclaimed]
      exact h.effectId e record hget
    rw [hid]
    refine ⟨?_, hget'⟩
    rw [hclaimed]
    exact hclaimable

end InMemoryStore

section
variable {Target Decision : Type} {adapters : Adapters Target Decision}

/-- What the others leave alone: the effects that the worker has claimed and not settled. -/
def untouched : Rely Response (Shared InMemoryStore Target) := fun t s s' =>
  (s.store.Kept → s'.store.Kept) ∧ ∀ r ∈ awaiting t,
    s'.store.records.get? r.effectId = s.store.records.get? r.effectId

/-- The worker has these effects to settle, and the store has them as it knows them. -/
structure Awaits (t : List (Exchange Response)) (s : Shared InMemoryStore Target)
    (claimed : List EffectRecord) : Prop where
  awaiting : awaiting t = claimed
  nodup : (claimed.map EffectRecord.effectId).Nodup
  stored : ∀ r ∈ claimed, s.store.records.get? r.effectId = some r

variable {t : List (Exchange Response)} {s s' : Shared InMemoryStore Target}
  {claimed : List EffectRecord}

theorem Awaits.others (h : Awaits t s claimed) (hr : untouched t s s') : Awaits t s' claimed := by
  refine ⟨h.awaiting, h.nodup, fun r hm => ?_⟩
  rw [hr.2 r (h.awaiting ▸ hm)]
  exact h.stored r hm

/-- A request that leaves the records alone, and settles nothing. -/
theorem Awaits.exchange (h : Awaits t s claimed) {x : Exchange Response}
    (hx : EffectBroker.awaiting (x :: t) = EffectBroker.awaiting t)
    (hrecords : s'.store.records = s.store.records) : Awaits (x :: t) s' claimed := by
  refine ⟨hx.trans h.awaiting, h.nodup, fun r hm => ?_⟩
  rw [hrecords]
  exact h.stored r hm

theorem filter_others {before : EffectRecord} {rest : List EffectRecord}
    (h : ((before :: rest).map EffectRecord.effectId).Nodup) :
    (before :: rest).filter (·.effectId ≠ before.effectId) = rest := by
  obtain ⟨hnot, -⟩ := List.nodup_cons.mp h
  rw [List.filter_cons_of_neg (by simp)]
  refine List.filter_eq_self.mpr fun r hm => decide_eq_true fun he => hnot ?_
  exact he ▸ List.mem_map_of_mem hm

/-- The move of an effect that awaits the worker is granted, and recorded. -/
theorem always_move {before : EffectRecord} {rest : List EffectRecord}
    (h : Awaits t s (before :: rest)) {target : EffectStatus}
    (hallowed : isAllowed before.status target = true) (data : Items) :
    Always (memoryBroker adapters) untouched (fun _ => True) (transitionAndRecord before target data)
      t s fun t' s' result => ∃ after, result = .ok after ∧ after.effectId = before.effectId ∧
        after.status = target ∧ Awaits t' s' (if target = .dispatching then after :: rest else rest) ∧
        ∃ metric, t' = ⟨.record metric, ()⟩ :: ⟨.transition before.effectId before.version target data,
          (.ok after : Except Exc EffectRecord)⟩ :: t := by
  refine always_bind.mpr (always_tryCatch.mpr (always_transition.mpr fun middle input hr _ => ?_))
  have hm := h.others hr
  have hget := hm.stored before (List.mem_cons_self ..)
  have hmove : memoryStore.transition middle.store input.now before.effectId before.version target
      data = (.ok (movedRecord before target input.now),
        middle.store.moveRecord before input.now before.effectId target data) :=
    InMemoryStore.transition_of_get hget hallowed input.now data
  rw [hmove]
  have hmoved : Awaits (⟨.transition before.effectId before.version target data,
        (.ok (movedRecord before target input.now) : Except Exc EffectRecord)⟩ :: t)
      { middle with store := middle.store.moveRecord before input.now before.effectId target data }
      (if target = .dispatching then movedRecord before target input.now :: rest else rest) := by
    obtain ⟨hnot, hnodup⟩ := List.nodup_cons.mp hm.nodup
    have hothers : ∀ r ∈ rest, (middle.store.moveRecord before input.now before.effectId target
        data).records.get? r.effectId = some r := by
      intro r hr
      have hne : r.effectId ≠ before.effectId := fun he => hnot (he ▸ List.mem_map_of_mem hr)
      rw [InMemoryStore.moveRecord_records, if_neg hne]
      exact hm.stored r (List.mem_cons_of_mem _ hr)
    have hpending : EffectBroker.awaiting (⟨.transition before.effectId before.version target data,
        (.ok (movedRecord before target input.now) : Except Exc EffectRecord)⟩ :: t) =
        if target = .dispatching then movedRecord before target input.now :: rest else rest := by
      rw [← filter_others hm.nodup, ← hm.awaiting]
      rfl
    refine ⟨hpending, ?_, ?_⟩
    · split
      · exact List.nodup_cons.mpr ⟨hnot, hnodup⟩
      · exact hnodup
    · split
      · intro r hr
        rcases List.mem_cons.mp hr with rfl | hr
        · exact (InMemoryStore.moveRecord_records ..).trans (if_pos rfl)
        · exact hothers r hr
      · exact hothers
  refine always_bind.mpr (always_record.mpr fun after input' hr' _ => ?_)
  exact ⟨_, rfl, rfl, rfl, (hmoved.others hr').exchange rfl rfl, _, rfl⟩

/-- An attempt on an effect that awaits the worker starts. -/
theorem always_attempt {dispatching : EffectRecord} {rest : List EffectRecord}
    (h : Awaits t s (dispatching :: rest)) (workerId : Str) :
    Always (memoryBroker adapters) untouched (fun _ => True)
      (Program.startAttempt dispatching.effectId dispatching.version workerId) t s
      fun t' s' result => ∃ attemptId : Str, result = .ok attemptId ∧
        Awaits t' s' (dispatching :: rest) ∧
        t' = ⟨.startAttempt dispatching.effectId dispatching.version workerId,
          (.ok attemptId : Except Exc Str)⟩ :: t := by
  refine always_startAttempt.mpr fun middle input hr _ => ?_
  have hm := h.others hr
  obtain ⟨attemptId, hstart⟩ := InMemoryStore.startAttempt_of_get
    (hm.stored dispatching (List.mem_cons_self ..)) input.now workerId
  have hserved : memoryStore.startAttempt middle.store input.now dispatching.effectId
      dispatching.version workerId = (.ok attemptId,
        middle.store.addAttempt dispatching input.now dispatching.effectId workerId) := hstart
  rw [hserved]
  exact ⟨attemptId, rfl, hm.exchange rfl rfl, rfl⟩

/-! ## One effect -/

/-- An exchange was made after some others. -/
def Since (t t' : List (Exchange Response)) (x : Exchange Response) : Prop :=
  ∃ new, t' = new ++ t ∧ x ∈ new

theorem Since.later {t t' t'' : List (Exchange Response)} {x : Exchange Response} (h : Since t t' x)
    (hsuffix : t' <:+ t'') : Since t t'' x := by
  obtain ⟨new, rfl, hx⟩ := h
  obtain ⟨newer, rfl⟩ := hsuffix
  exact ⟨newer ++ new, (List.append_assoc ..).symm, List.mem_append_right _ hx⟩

theorem Since.from {t t' t'' : List (Exchange Response)} {x : Exchange Response} (h : Since t' t'' x)
    (hsuffix : t <:+ t') : Since t t'' x := by
  obtain ⟨new, rfl, hx⟩ := h
  obtain ⟨newer, rfl⟩ := hsuffix
  exact ⟨new ++ newer, (List.append_assoc ..).symm, List.mem_append_left _ hx⟩

/-- The effect is settled since `t`, and the rest of the batch awaits the worker. -/
structure Settled (dispatching : EffectRecord) (rest : List EffectRecord)
    (t t' : List (Exchange Response)) (s' : Shared InMemoryStore Target) (result : EffectRecord) :
    Prop where
  effectId : result.effectId = dispatching.effectId
  allowed : isAllowed .dispatching result.status = true
  awaits : Awaits t' s' rest
  suffix : t <:+ t'
  since : ∃ version data, Since t t' ⟨.transition dispatching.effectId version result.status data,
    (.ok result : Except Exc EffectRecord)⟩

theorem always_settle {dispatching : EffectRecord} {rest : List EffectRecord}
    {t₀ : List (Exchange Response)} (h : Awaits t s (dispatching :: rest)) (ht : t₀ <:+ t)
    (hstatus : dispatching.status = .dispatching) {target : EffectStatus}
    (hallowed : isAllowed .dispatching target = true) (data : Items) :
    Always (memoryBroker adapters) untouched (fun _ => True)
      (transitionAndRecord dispatching target data) t s
      fun t' s' ended => ∃ result, ended = .ok result ∧ Settled dispatching rest t₀ t' s' result := by
  have hne : target ≠ .dispatching := by
    rintro rfl
    cases hallowed
  refine (always_move h (by rw [hstatus]; exact hallowed) data).mono fun t' s' ended hends => ?_
  obtain ⟨after, rfl, hid, htarget, hawaits, metric, rfl⟩ := hends
  rw [if_neg hne] at hawaits
  subst htarget
  refine ⟨after, rfl, hid, hallowed, hawaits, ht.trans (List.suffix_append [_, _] t),
    dispatching.version, data, ?_⟩
  exact Since.from ⟨[_, _], rfl, List.mem_cons_of_mem _ (List.mem_cons_self ..)⟩ ht

/-- A request to the outside settles nothing, whatever is made of its answer. -/
theorem always_outside {α : Type} {r : Request} {f : Response r → Except Exc α}
    (hawaiting : ∀ response t, EffectBroker.awaiting (⟨r, response⟩ :: t) = EffectBroker.awaiting t)
    (hserve : ∀ surroundings shared,
      (serve memoryStore adapters r surroundings shared).2.store = shared.store)
    (h : Awaits t s claimed) :
    Always (memoryBroker adapters) untouched (fun _ => True)
      (Coroutine.request r >>= fun response => Coroutine.ofExcept (f response)) t s
      fun t' s' _ => Awaits t' s' claimed ∧ t <:+ t' := by
  refine always_ofExcept_request.mpr fun middle input hr _ => ⟨?_, List.suffix_cons _ _⟩
  exact (h.others hr).exchange (hawaiting _ _) (congrArg InMemoryStore.records (hserve input middle))

/-- The `try` block settles the effect, or raises and leaves it to its handlers. -/
theorem always_callAndRecord {dispatching : EffectRecord} {rest : List EffectRecord}
    (h : Awaits t s (dispatching :: rest)) (hstatus : dispatching.status = .dispatching)
    (attemptId : Str) :
    Always (memoryBroker adapters) untouched (fun _ => True) (callAndRecord dispatching attemptId) t s
      fun t' s' ended => (∃ result, ended = .ok result ∧ Settled dispatching rest t t' s' result) ∨
        ∃ exc, ended = .error exc ∧ Awaits t' s' (dispatching :: rest) ∧ t <:+ t' := by
  refine always_bind.mpr ((always_outside (r := .adapterFor dispatching) (f := id) (fun _ _ => rfl)
    (fun _ _ => rfl) h).mono fun t₁ s₁ built ⟨h₁, ht₁⟩ => ?_)
  cases built with
  | error exc => exact .inr ⟨exc, rfl, h₁, ht₁⟩
  | ok =>
    refine always_bind.mpr ((always_outside (r := .dispatch dispatching attemptId) (f := id)
      (fun _ _ => rfl) (fun _ _ => rfl) h₁).mono fun t₂ s₂ answer ⟨h₂, ht₂⟩ => ?_)
    have ht := ht₁.trans ht₂
    cases answer with
    | error exc => exact .inr ⟨exc, rfl, h₂, ht⟩
    | ok returned =>
      -- reading the result may raise too
      refine always_bind.mpr (always_ofExcept.mpr ?_)
      cases returned.committed with
      | error exc => exact .inr ⟨exc, rfl, h₂, ht⟩
      | ok committed =>
        cases committed with
        | false => exact (always_settle h₂ ht hstatus rfl _).mono fun _ _ _ => .inl
        | true =>
          refine always_bind.mpr (always_ofExcept.mpr ?_)
          cases returned.externalId with
          | error exc => exact .inr ⟨exc, rfl, h₂, ht⟩
          | ok externalId =>
            refine always_bind.mpr (always_ofExcept.mpr ?_)
            cases returned.output with
            | error exc => exact .inr ⟨exc, rfl, h₂, ht⟩
            | ok output => exact (always_settle h₂ ht hstatus rfl _).mono fun _ _ _ => .inl

theorem always_recordFailure {dispatching : EffectRecord} {rest : List EffectRecord}
    {t₀ : List (Exchange Response)} (h : Awaits t s (dispatching :: rest)) (ht : t₀ <:+ t)
    (hstatus : dispatching.status = .dispatching) (attemptId : Str) (exc : Exc) :
    Always (memoryBroker adapters) untouched (fun _ => True)
      (recordFailure dispatching attemptId exc) t s
      fun t' s' ended => ∃ result, ended = .ok result ∧ Settled dispatching rest t₀ t' s' result := by
  unfold recordFailure
  by_cases hadapter : exc.isAdapterError = true
  · rw [if_pos hadapter]
    refine always_settle h ht hstatus ?_ _
    unfold nonCommitTarget
    split <;> rfl
  · rw [if_neg hadapter]
    exact always_settle h ht hstatus rfl _

/-- Whatever the adapters do, the handlers settle what the `try` block has not. -/
theorem always_tryBlock {dispatching : EffectRecord} {rest : List EffectRecord}
    (h : Awaits t s (dispatching :: rest)) (hstatus : dispatching.status = .dispatching)
    (attemptId : Str) :
    Always (memoryBroker adapters) untouched (fun _ => True)
      (tryCatch (callAndRecord dispatching attemptId) (recordFailure dispatching attemptId)) t s
      fun t' s' ended => ∃ result, ended = .ok result ∧ Settled dispatching rest t t' s' result := by
  refine always_tryCatch.mpr ((always_callAndRecord h hstatus attemptId).mono
    fun t' s' ended hends => ?_)
  rcases hends with ⟨result, rfl, hsettled⟩ | ⟨exc, rfl, hawaits, hsuffix⟩
  · exact ⟨result, rfl, hsettled⟩
  · exact always_recordFailure hawaits hsuffix hstatus attemptId exc

/-- The loop body settles the first effect that awaits the worker, and no other. -/
theorem always_dispatchEffect {effect : EffectRecord} {rest : List EffectRecord} {workerId : Str}
    (h : Awaits t s (effect :: rest)) (hclaimable : effect.status.isClaimable = true) :
    Always (memoryBroker adapters) untouched (fun _ => True) (dispatchEffect workerId effect) t s
      fun t' s' ended => ∃ result new, ended = .ok result ∧ t' = new ++ t ∧
        SettledAlone workerId effect result new ∧ Awaits t' s' rest := by
  have hallowed : isAllowed effect.status .dispatching = true := by
    rcases EffectStatus.isClaimable_iff.mp hclaimable with hs | hs <;> rw [hs] <;> rfl
  have hbody : Always (memoryBroker adapters) untouched (fun _ => True)
      (dispatchEffect workerId effect) t s fun t' s' ended => ∃ result, ended = .ok result ∧
        Settled effect rest t t' s' result ∧
        (∃ data, ∃ after : EffectRecord, Since t t' ⟨.transition effect.effectId effect.version
          .dispatching data, (.ok after : Except Exc EffectRecord)⟩) ∧
        ∃ version, ∃ attemptId : Str, Since t t' ⟨.startAttempt effect.effectId version workerId,
          (.ok attemptId : Except Exc Str)⟩ := by
    refine always_bind.mpr ((always_move h hallowed _).mono fun t₁ s₁ entered hentered => ?_)
    obtain ⟨dispatching, rfl, hid, hstatus, h₁, metric, ht₁⟩ := hentered
    rw [if_pos rfl] at h₁
    have hsuffix₁ : t <:+ t₁ := ht₁ ▸ List.suffix_append [_, _] t
    have hsince₁ : Since t t₁ _ := ⟨[_, _], ht₁, List.mem_cons_of_mem _ (List.mem_cons_self ..)⟩
    refine always_bind.mpr ((always_attempt h₁ workerId).mono fun t₂ s₂ started hstarted => ?_)
    obtain ⟨attemptId, rfl, h₂, ht₂⟩ := hstarted
    have hsuffix₂ : t₁ <:+ t₂ := ht₂ ▸ List.suffix_cons _ t₁
    have hsince₂ : Since t₁ t₂ _ := ⟨[_], ht₂, List.mem_cons_self ..⟩
    refine always_bind.mpr (always_record.mpr fun middle _ hr _ => ?_)
    have h₃ : Awaits (⟨.record (.dispatchAttempt dispatching), ()⟩ :: t₂)
        { middle with metrics := middle.metrics.record (.dispatchAttempt dispatching) }
        (dispatching :: rest) := (h₂.others hr).exchange rfl rfl
    refine (always_tryBlock h₃ hstatus attemptId).mono fun t₄ s₄ ended hends => ?_
    obtain ⟨result, rfl, hsettled⟩ := hends
    have hsuffix₃ : t₂ <:+ ⟨.record (.dispatchAttempt dispatching), ()⟩ :: t₂ := List.suffix_cons _ t₂
    have hsuffix₄ : t₂ <:+ t₄ := hsuffix₃.trans hsettled.suffix
    obtain ⟨version, data, hsince⟩ := hsettled.since
    have hfrom := hsuffix₁.trans (hsuffix₂.trans hsuffix₃)
    exact ⟨result, rfl, ⟨hsettled.effectId.trans hid, hsettled.allowed, hsettled.awaits,
        hfrom.trans hsettled.suffix, version, data, hid ▸ hsince.from hfrom⟩,
      ⟨_, dispatching, hsince₁.later (hsuffix₂.trans hsuffix₄)⟩,
      dispatching.version, attemptId, hid ▸ (hsince₂.from hsuffix₁).later hsuffix₄⟩
  refine hbody.traced.mono fun t' s' ended ⟨hends, new, hnew, htraces⟩ => ?_
  obtain ⟨result, rfl, hsettled, ⟨data, after, hentered⟩, version, attemptId, hattempted⟩ := hends
  -- what was exchanged since `t` is what the body exchanged
  have within : ∀ {x}, Since t t' x → x ∈ new := by
    rintro x ⟨new', hnew', hx⟩
    rwa [List.append_cancel_right (hnew.symm.trans hnew')]
  obtain ⟨version', data', hsince⟩ := hsettled.since
  have halone : (dispatchAll workerId [effect]).Traces (new.reverse ++ []) (.ok [result]) :=
    htraces.bind .done
  rw [List.append_nil] at halone
  exact ⟨result, new, rfl, hnew, ⟨hsettled.effectId, halone, ⟨data, after, within hentered⟩,
    ⟨version, attemptId, within hattempted⟩, version', data', within hsince, hsettled.allowed⟩,
    hsettled.awaits⟩

/-! ## Batches -/

/-- The loop settles every effect that awaits the worker, each as if alone. -/
theorem always_dispatchAll {workerId : Str} (h : Awaits t s claimed)
    (hclaimable : ∀ r ∈ claimed, r.status.isClaimable = true) :
    Always (memoryBroker adapters) untouched (fun _ => True) (dispatchAll workerId claimed) t s
      fun t' _ ended => ∃ results new, ended = .ok results ∧ t' = new ++ t ∧
        Batch workerId claimed results new := by
  induction claimed generalizing t s with
  | nil => exact ⟨[], [], rfl, rfl, .nil⟩
  | cons effect rest ih =>
    have hfirst := hclaimable effect (List.mem_cons_self ..)
    refine always_bind.mpr ((always_dispatchEffect h hfirst).mono fun t₁ s₁ ended hends => ?_)
    obtain ⟨result, new, rfl, rfl, hsettled, h₁⟩ := hends
    have hrest : ∀ r ∈ rest, r.status.isClaimable = true :=
      fun r hm => hclaimable r (List.mem_cons_of_mem _ hm)
    refine always_bind.mpr ((ih h₁ hrest).mono fun t₂ s₂ ended hends => ?_)
    obtain ⟨results, newer, rfl, rfl, hbatch⟩ := hends
    exact ⟨result :: results, newer ++ new, rfl, (List.append_assoc ..).symm, .cons hsettled hbatch⟩

/-- How a call of `dispatch_once` ends: the claim has raised, or each effect of the batch is
settled as if alone, and has its result in the list, once. -/
def BatchEnds (workerId : Str) (now : Datetime) (leaseFor : Timedelta) (limit : Int)
    (t : List (Exchange Response)) (ended : Except Exc Reply) : Prop :=
  (∃ exc, t = [⟨.claimDue workerId now leaseFor limit,
      (.error exc : Except Exc (List EffectRecord))⟩] ∧ ended = .error exc) ∨
  ∃ claimed results new, t = new ++ [⟨.claimDue workerId now leaseFor limit,
      (.ok claimed : Except Exc (List EffectRecord))⟩] ∧ ended = .ok (.effects results) ∧
    (claimed.map EffectRecord.effectId).Nodup ∧
    results.map EffectRecord.effectId = claimed.map EffectRecord.effectId ∧
    Batch workerId claimed results new

theorem always_batchEnds {workerId : Str} {now : Datetime} {leaseFor : Timedelta} {limit : Int}
    {s : Shared InMemoryStore Target} (hkept : s.store.Kept) :
    Always (memoryBroker adapters) untouched (fun _ => True)
      (Procedure.dispatchOnce workerId now leaseFor limit).program [] s
      fun t _ ended => BatchEnds workerId now leaseFor limit t ended := by
  refine always_bind.mpr (always_bind.mpr (always_claimDue.mpr fun middle input hr _ => ?_))
  have hkept' := hr.1 hkept
  cases hclaim : (memoryStore.claimDue middle.store workerId now leaseFor limit).1 with
  | error exc => exact .inl ⟨exc, rfl, rfl⟩
  | ok claimed =>
    obtain ⟨hnodup, hclaimed⟩ := InMemoryStore.claimDue_results hkept' hclaim
    have hawaits : Awaits [⟨.claimDue workerId now leaseFor limit,
        (.ok claimed : Except Exc (List EffectRecord))⟩]
        { middle with store := (memoryStore.claimDue middle.store workerId now leaseFor limit).2 }
        claimed := ⟨rfl, hnodup, fun r hm => (hclaimed r hm).2⟩
    refine (always_dispatchAll hawaits fun r hm => (hclaimed r hm).1).mono fun t' s' ended hends => ?_
    obtain ⟨results, new, rfl, rfl, hbatch⟩ := hends
    exact .inr ⟨claimed, results, new, rfl, rfl, hnodup, hbatch.effectIds, hbatch⟩

/-- What every task ensures here; only workers promise anything. -/
def WorkerEnds (task : Procedure) (t : List (Exchange Response)) (_ : Shared InMemoryStore Target)
    (ended : Except Exc Reply) : Prop :=
  match task with
  | .dispatchOnce workerId now leaseFor limit => BatchEnds workerId now leaseFor limit t ended
  | _ => True

variable {hashes : Hashes} {tenantKeyProvider : TenantKeyProvider} {target : Target}
  {w : World Response Exc Procedure Reply (Shared InMemoryStore Target)}

/-- Nobody but the worker advances an effect that it has claimed and not settled yet. -/
def Undisturbed (c : Nat) (u : World Response Exc Procedure Reply (Shared InMemoryStore Target))
    (choice : Choice Procedure (Surroundings Decision))
    (v : World Response Exc Procedure Reply (Shared InMemoryStore Target)) : Prop :=
  choice.caller? ≠ some c → ∀ r ∈ awaiting (exchangesOf u.log c),
    v.shared.store.records.get? r.effectId = u.shared.store.records.get? r.effectId

theorem undisturbed_kept {c : Nat} (h : (memoryBroker adapters).ReachableVia (Undisturbed c)
    (World.initial (.initial hashes tenantKeyProvider target)) w) : w.shared.store.Kept := by
  obtain ⟨log, hrun⟩ := reachable_storeRun h.reachableFrom
  exact InMemoryStore.kept_of_run hrun

/-- **The effects of a batch are isolated from each other** in every run over the in-memory store
in which nobody but the worker advances an effect of the batch before the worker has settled it. -/
theorem batch_isolated {c : Nat} {workerId : Str} {now : Datetime} {leaseFor : Timedelta}
    {limit : Int} {ended : Except Exc Reply}
    (h : (memoryBroker adapters).ReachableVia (Undisturbed c)
      (World.initial (.initial hashes tenantKeyProvider target)) w)
    (hcall : .called c (.dispatchOnce workerId now leaseFor limit) ∈ w.log)
    (hend : w.callers c = .running (Coroutine.ofExcept ended)) :
    BatchEnds workerId now leaseFor limit (exchangesOf w.log c) ended := by
  have hprogram : ∀ (task : Procedure) (s : Shared InMemoryStore Target), s.store.Kept →
      Always (memoryBroker adapters) untouched (fun _ => True) task.program [] s (WorkerEnds task) := by
    intro task s hkept
    cases task with
    | dispatchOnce => exact always_batchEnds hkept
    | submit | get | reconcile | cancel | resolve => exact always_trivial _
  obtain ⟨task, hcalled, halways⟩ := h.always (R := untouched) (J := fun s => s.store.Kept)
    (Q := WorkerEnds) hprogram (fun _ _ => ⟨id, fun _ _ => rfl⟩)
    (fun _ _ _ _ h h' => ⟨h'.1 ∘ h.1, fun r hm => (h'.2 r hm).trans (h.2 r hm)⟩)
    (fun _ _ _ _ _ h _ => h) undisturbed_kept
    (fun hu hs hP hc => ⟨fun _ => undisturbed_kept (hu.step hs hP), hP hc⟩) hend
  obtain rfl := (hcalled _).mp hcall
  exact always_ofExcept.mp halways

/-- Whether no other caller's choice moves an effect that the worker has claimed and not settled,
by the versions. -/
def calm (c : Nat) (u : World Response Exc Procedure Reply (Shared InMemoryStore Unit)) :
    List (Choice Procedure (Surroundings AnyAnswer)) → Bool
  | [] => true
  | choice :: rest =>
    match (memoryBroker anyAdapters).step u choice with
    | none => true
    | some v => calm c v rest && (choice.caller? = some c || (awaiting (exchangesOf u.log c)).all fun r =>
        (v.shared.store.records.get? r.effectId).map EffectRecord.version =
          (u.shared.store.records.get? r.effectId).map EffectRecord.version)

theorem reachableVia_of_calm {c : Nat}
    {u v : World Response Exc Procedure Reply (Shared InMemoryStore Unit)}
    {choices : List (Choice Procedure (Surroundings AnyAnswer))}
    (h : (memoryBroker anyAdapters).ReachableVia (Undisturbed c)
      (World.initial (.initial hashes tenantKeyProvider ())) u)
    (hcalm : calm c u choices = true) (hrun : (memoryBroker anyAdapters).run u choices = some v) :
    (memoryBroker anyAdapters).ReachableVia (Undisturbed c)
      (World.initial (.initial hashes tenantKeyProvider ())) v := by
  induction choices generalizing u with
  | nil =>
    cases hrun
    exact h
  | cons choice rest ih =>
    obtain ⟨m, hm, hrest⟩ := Option.bind_eq_some_iff.mp hrun
    rw [calm, hm] at hcalm
    obtain ⟨hcalm, hkept⟩ := Bool.and_eq_true_iff.mp hcalm
    refine ih (h.step hm fun hother r hr => ?_) hcalm hrest
    rcases Bool.or_eq_true_iff.mp hkept with hself | hversions
    · exact absurd (of_decide_eq_true hself) hother
    · have hversion := of_decide_eq_true (List.all_eq_true.mp hversions r hr)
      rcases store_step hm with hsame | ⟨call, hserved⟩
      · rw [hsame]
      · rw [hserved] at hversion ⊢
        exact (InMemoryStore.serve_records (undisturbed_kept h) call r.effectId).of_version hversion

/-- A caller submits an operation of the sample tenant. -/
def submitKey (caller : Nat) (key : String) (surroundings : Surroundings AnyAnswer) :
    List (Choice Procedure (Surroundings AnyAnswer)) :=
  .call caller (.submit (sampleBroker (sampleContract .idempotent 0)) sampleTenant
      { sampleRequest with operationKey := str key }) ::
    List.replicate 2 (.answer caller surroundings)

/-- A worker claims two effects.  The adapter refuses the first one; meanwhile another effect is
submitted and cancelled.  The second one is committed. -/
def batchRun : List (Choice Procedure (Surroundings AnyAnswer)) :=
  let refusing : Surroundings AnyAnswer := ⟨sampleTime 0, [], .ok (),
    .error (.adapterError (str "AdapterError") (str "refused")), .error .overflowError⟩
  let committing : Surroundings AnyAnswer := ⟨sampleTime 0, [], .ok (),
    .ok (DispatchResult.read ⟨some (str "ch_1"), [], true⟩), .error .overflowError⟩
  submitKey 0 "order-1" refusing ++ submitKey 2 "order-2" refusing ++
    .call 1 (.dispatchOnce (str "w") (sampleTime 0) .zero 2) :: List.replicate 6 (.answer 1 refusing) ++
    .begin 1 :: submitKey 3 "order-3" refusing ++
    .call 4 (.cancel sampleTenant (effectIdOf 3) 0 (str "alice") (str "changed my mind")) ::
      List.replicate 3 (.answer 4 refusing) ++
    List.replicate 8 (.answer 1 refusing) ++ .begin 1 :: List.replicate 3 (.answer 1 committing)

/-- How a caller has ended. -/
def endOf (caller : Caller Response Exc Reply) : Option (Except Exc Reply) :=
  match caller with
  | .running (.done reply) => some (.ok reply)
  | .running (.raised exc) => some (.error exc)
  | _ => none

theorem ofExcept_of_endOf {caller : Caller Response Exc Reply} {ended : Except Exc Reply}
    (h : endOf caller = some ended) : caller = .running (Coroutine.ofExcept ended) := by
  cases caller with
  | running p =>
    cases p with
    | done | raised =>
      cases h
      rfl
    | await => cases h
  | absent | stopped => cases h

/-- The first effect is refused and the second is committed, each as if it were alone. -/
theorem batch_isolated_sample :
    let w := sampleWorld batchRun
    w.shared.store.records.values.map (fun record => (record.effectId, record.status)) =
      [(effectIdOf 1, .failedFinal), (effectIdOf 2, .succeeded), (effectIdOf 3, .cancelled)] ∧
    ∃ ended, BatchEnds (str "w") (sampleTime 0) .zero 2 (exchangesOf w.log 1) ended := by
  intro w
  refine ⟨by decide +kernel, ?_⟩
  have hruns : ((memoryBroker anyAdapters).run (World.initial (.initial sampleHashes sampleKeys ()))
      batchRun).isSome = true := by
    decide +kernel
  obtain ⟨v, hrun⟩ := Option.isSome_iff_exists.mp hruns
  have hv : w = v := System.after_of_run _ hrun
  have hvia := reachableVia_of_calm (c := 1) .start (by decide +kernel) hrun
  rw [← hv] at hvia
  have hended : (endOf (w.callers 1)).isSome = true := by decide +kernel
  obtain ⟨ended, hended⟩ := Option.isSome_iff_exists.mp hended
  exact ⟨ended, batch_isolated hvia (List.mem_of_getElem? (show w.log[26]? = _ from rfl))
    (ofExcept_of_endOf hended)⟩

/-- Two operations are submitted and a worker claims both.  One effect is cancelled before
the worker comes to it. -/
def overtakenRun : List (Choice Procedure (Surroundings AnyAnswer)) :=
  let surroundings : Surroundings AnyAnswer :=
    ⟨sampleTime 0, [], .ok (), .error .overflowError, .error .overflowError⟩
  submitSample 0 (sampleContract .idempotent 0) surroundings ++
    .call 1 (.submit (sampleBroker (sampleContract .idempotent 0)) sampleTenant
        { sampleRequest with operationKey := str "order-2" }) ::
      List.replicate 2 (.answer 1 surroundings) ++
    [.call 2 (.dispatchOnce (str "w") (sampleTime 0) .zero 2), .answer 2 surroundings,
      .call 3 (.cancel sampleTenant (effectIdOf 1) 1 (str "alice") (str "changed my mind"))] ++
    List.replicate 3 (.answer 3 surroundings) ++ List.replicate 2 (.answer 2 surroundings)

/-- The effect that the worker has not come to, as the claim returns it. -/
def leftEffect : EffectRecord :=
  { sampleEffect (sampleContract .idempotent 0) .prepared 1 with
    effectId := effectIdOf 2, request := { sampleRequest with operationKey := str "order-2" } }

/-- The exchange is no transition of the effect `e`. -/
def sparesEffect (e : Str) (x : Exchange Response) : Bool :=
  match x.request with
  | .transition effectId .. => effectId ≠ e
  | _ => true

/-- A lost race on one effect of a batch ends the batch.  The worker never enters the other
effect that it has claimed, though nobody has advanced it. -/
theorem batch_lost : ∃ (w : World Response Exc Procedure Reply (Shared InMemoryStore Unit))
      (claimed : List EffectRecord) (effect : EffectRecord) (exc : Exc),
    (memoryBroker anyAdapters).Reachable (.initial sampleHashes sampleKeys ()) w ∧
    .called 2 (.dispatchOnce (str "w") (sampleTime 0) .zero 2) ∈ w.log ∧
    w.callers 2 = .running (Coroutine.ofExcept (.error exc)) ∧
    ⟨.claimDue (str "w") (sampleTime 0) .zero 2, (.ok claimed : Except Exc (List EffectRecord))⟩ ∈
      exchangesOf w.log 2 ∧ effect ∈ claimed ∧
    w.shared.store.records.get? effect.effectId = some effect ∧
    ∀ result t, (∀ x ∈ t, x ∈ exchangesOf w.log 2) → ¬SettledAlone (str "w") effect result t := by
  have hnone : (exchangesOf (sampleWorld overtakenRun).log 2).all (sparesEffect leftEffect.effectId)
      = true := by
    decide +kernel
  refine ⟨sampleWorld overtakenRun, [sampleEffect (sampleContract .idempotent 0) .prepared 1, leftEffect],
    leftEffect, _, sampleWorld_reachable _, List.mem_of_getElem? (show _[7]? = _ from rfl), rfl,
    List.mem_of_getElem? (show _[2]? = _ from rfl), by simp, rfl, fun result t hwithin h => ?_⟩
  obtain ⟨data, after, hentered⟩ := h.entered
  have hspares : decide (leftEffect.effectId ≠ leftEffect.effectId) = true :=
    List.all_eq_true.mp hnone _ (hwithin _ hentered)
  exact of_decide_eq_true hspares rfl

end
end EffectBroker
