import EffectBroker.DispatchIntent
import EffectBroker.MemoryLedger
import EffectBroker.RelyGuarantee
import EffectBroker.BrokerRuns

/-!
# Cancellation is decisive

A cancel reads the effect and moves it in two steps, and anybody may act between them.
Whoever does advances the version, so a cancel that returns has moved the effect it read,
and a cancel that raises has moved nothing.
-/
namespace EffectBroker
open Python Concurrency

section
variable {Target Decision : Type} {adapters : Adapters Target Decision} {hashes : Hashes}
  {tenantKeyProvider : TenantKeyProvider} {target : Target}
  {w w' : World Response Exc Procedure Reply (Shared InMemoryStore Target)}

/-! ## What a cancel exchanges -/

/-- An exchange that leaves the store alone. -/
def Harmless (x : Exchange Response) : Prop :=
  match x.request, x.response with
  | .get .., _ | .record _, _ => True
  | .transition .., (.error _ : Except Exc EffectRecord) => True
  | _, _ => False

/-- What a cancel has exchanged when it ends: it has moved the effect, or only made
harmless exchanges. -/
def CancelEnds (α : Type) (t : List (Exchange Response)) (result : Except Exc α) : Prop :=
  match result with
  | .ok _ => ∃ e version data, ∃ after : EffectRecord,
      ⟨.transition e version .cancelled data, (.ok after : Except Exc EffectRecord)⟩ ∈ t
  | .error _ => ∀ x ∈ t, Harmless x

theorem always_cancel (tenantId e : Str) (expectedVersion : Int) (actor reason : Str)
    (s : Shared InMemoryStore Target) :
    Always (memoryBroker adapters) anything (fun _ => True)
      (Broker.cancel tenantId e expectedVersion actor reason) [] s
      fun t _ result => CancelEnds EffectRecord t result := by
  have got : ∀ answer, Harmless ⟨.get tenantId e, answer⟩ := fun _ => trivial
  refine always_bind.mpr (always_bind.mpr (always_get.mpr fun middle _ _ _ => ?_))
  cases hget : memoryStore.get middle.store tenantId e with
  | error exc =>
    intro x hx
    obtain rfl := List.mem_singleton.mp hx
    exact got _
  | ok found =>
    cases found with
    | none =>
      intro x hx
      obtain rfl := List.mem_singleton.mp hx
      exact got _
    | some effect =>
      show Always _ _ _ (if _ then _ else if _ then _ else _) _ _ _
      split
      · intro x hx
        obtain rfl := List.mem_singleton.mp hx
        exact got _
      · split
        · intro x hx
          obtain rfl := List.mem_singleton.mp hx
          exact got _
        · refine always_bind.mpr (always_transition.mpr fun middle' input _ _ => ?_)
          cases hmove : (memoryStore.transition middle'.store input.now effect.effectId
            expectedVersion .cancelled _).1 with
          | error exc =>
            intro x hx
            rcases List.mem_cons.mp hx with rfl | hx
            · trivial
            · obtain rfl := List.mem_singleton.mp hx
              exact got _
          | ok after =>
            refine always_bind.mpr (always_record.mpr fun _ _ _ _ => ?_)
            exact ⟨_, _, _, after, List.mem_cons_of_mem _ (List.mem_cons_self ..)⟩

/-- What every task ensures about its exchanges; only cancels promise anything here. -/
def TaskEnds (task : Procedure) (t : List (Exchange Response)) (_ : Shared InMemoryStore Target)
    (result : Except Exc Reply) : Prop :=
  match task with
  | .cancel .. => CancelEnds Reply t result
  | _ => True

theorem always_taskEnds (task : Procedure) (s : Shared InMemoryStore Target) :
    Always (memoryBroker adapters) anything (fun _ => True) task.program [] s (TaskEnds task) := by
  cases task with
  | cancel tenantId e expectedVersion actor reason =>
    refine always_bind.mpr ((always_cancel tenantId e expectedVersion actor reason s).mono
      fun t s result h => ?_)
    cases result with
    | ok effect => exact h
    | error exc => exact h
  | _ => exact always_trivial _

/-- A cancel that has ended keeps what it promises. -/
theorem cancel_ends {c : Nat} {tenantId e : Str} {expectedVersion : Int} {actor reason : Str}
    (h : (memoryBroker adapters).Reachable (.initial hashes tenantKeyProvider target) w)
    (hcall : .called c (.cancel tenantId e expectedVersion actor reason) ∈ w.log)
    {p : Program Reply} (hc : w.callers c = .running p) :
    Always (memoryBroker adapters) anything (fun _ => True) p (exchangesOf w.log c) w.shared
      fun t _ result => CancelEnds Reply t result := by
  obtain ⟨task, hcalled, halways⟩ := h.always (R := anything) (Q := TaskEnds)
    always_taskEnds (fun _ _ => trivial) (fun _ _ _ _ _ _ => trivial)
    (fun _ _ _ _ _ h _ => h) (fun _ _ _ => trivial) hc
  obtain rfl := (hcalled _).mp hcall
  exact halways

/-! ## The store of a world -/

/-- A request is a call of the store, or leaves the store alone. -/
theorem serve_storeCall (adapters : Adapters Target Decision) (r : Request)
    (surroundings : Surroundings Decision) (shared : Shared InMemoryStore Target) :
    (serve memoryStore adapters r surroundings shared).2.store = shared.store ∨
      ∃ c, (serve memoryStore adapters r surroundings shared).2.store =
        (InMemoryStore.serve c shared.store).2 := by
  cases r with
  | reserve tenantId request contract =>
    exact .inr ⟨⟨.reserve tenantId request contract, surroundings.now, []⟩, rfl⟩
  | claimDue workerId now leaseFor limit =>
    exact .inr ⟨⟨.claimDue workerId now leaseFor limit, surroundings.now, []⟩, rfl⟩
  | startAttempt effectId expectedVersion workerId =>
    exact .inr ⟨⟨.startAttempt effectId expectedVersion workerId, surroundings.now, []⟩, rfl⟩
  | transition effectId expectedVersion status data =>
    exact .inr ⟨⟨.transition effectId expectedVersion status data, surroundings.now, []⟩, rfl⟩
  | _ => exact .inl rfl

/-- A step of the system is a call of the store, or leaves the store alone. -/
theorem store_step {choice : Choice Procedure (Surroundings Decision)}
    (h : (memoryBroker adapters).step w choice = some w') :
    w'.shared.store = w.shared.store ∨
      ∃ c, w'.shared.store = (InMemoryStore.serve c w.shared.store).2 := by
  cases choice with
  | disturb =>
    cases h
    exact .inl rfl
  | call | begin | land | stop =>
    simp only [System.step] at h
    split at h <;> (try split at h) <;> cases h
    all_goals exact .inl rfl
  | answer c input =>
    obtain ⟨r, hshared, -⟩ := System.step_answer h
    rw [hshared]
    exact serve_storeCall adapters r input w.shared

/-- The store of a reachable world is the end of a run of calls. -/
theorem reachable_storeRun
    (h : (memoryBroker adapters).Reachable (.initial hashes tenantKeyProvider target) w) :
    ∃ log, StoreRun InMemoryStore.serve (.initial hashes tenantKeyProvider) log w.shared.store := by
  induction h with
  | start => exact ⟨[], .start⟩
  | step _ hs ih =>
    obtain ⟨log, hrun⟩ := ih
    rcases store_step hs with heq | ⟨c, heq⟩ <;> rw [heq]
    · exact ⟨log, hrun⟩
    · exact ⟨_, hrun.call c⟩

theorem InMemoryStore.kept_of_run {log : List (Served InMemoryStore)} {s : InMemoryStore}
    (h : StoreRun InMemoryStore.serve (.initial hashes tenantKeyProvider) log s) : s.Kept := by
  induction h with
  | start => exact InMemoryStore.kept_initial ..
  | call c _ ih => exact (InMemoryStore.serve_spec ih c).1

/-- A terminal record stays in the ledger. -/
theorem terminal_forever {e : Str} {effect : EffectRecord}
    (h : (memoryBroker adapters).Reachable (.initial hashes tenantKeyProvider target) w)
    (hget : w.shared.store.records.get? e = some effect) (ht : isTerminal effect.status = true)
    (hw : (memoryBroker adapters).ReachableFrom w w') :
    w'.shared.store.records.get? e = some effect := by
  induction hw with
  | start => exact hget
  | step hu hs ih =>
    obtain ⟨log, hrun⟩ := reachable_storeRun (System.ReachableFrom.trans _ h hu)
    rcases store_step hs with heq | ⟨c, heq⟩ <;> rw [heq]
    · exact ih
    · have hstep := InMemoryStore.serve_records (InMemoryStore.kept_of_run hrun) c e
      rw [ih] at hstep
      exact hstep.terminal ht

/-! ## The theorem -/

/-- The effect is cancelled, and no dispatch of it is in flight. -/
structure Cancelled (w : World Response Exc Procedure Reply (Shared InMemoryStore Target)) (e : Str) :
    Prop where
  status : ∃ effect, w.shared.store.records.get? e = some effect ∧ effect.status = .cancelled
  idle : ∀ c effect attemptId, outstanding w.log c = some (.dispatch effect attemptId) →
    effect.effectId ≠ e

theorem cancelled_of_status {e : Str}
    (h : (memoryBroker adapters).Reachable (.initial hashes tenantKeyProvider target) w)
    (hstatus : ∃ effect, w.shared.store.records.get? e = some effect ∧ effect.status = .cancelled) :
    Cancelled w e := by
  refine ⟨hstatus, fun c effect attemptId ho he => ?_⟩
  obtain ⟨record, hget, hs⟩ := hstatus
  obtain ⟨route, hlife, hrec, -⟩ := (reachable_coherent h).in_flight ho
  obtain ⟨_, hr, hheld⟩ := hlife.fits.held _ _ _ rfl
  rw [he, hget] at hrec
  cases hrec
  cases hr
  rw [hs] at hheld
  cases hheld

theorem Settles.ne_cancelled {hold : Hold} {status : EffectStatus} {data : Items}
    (h : Settles hold status data) : status ≠ .cancelled := by
  cases h with
  | refused | nonCommit =>
    unfold nonCommitTarget
    split <;> exact fun h => nomatch h
  | _ => exact fun h => nomatch h

/-- Only a cancel of the effect moves it to `cancelled`. -/
theorem Allowed.cancelled {l : CallerState} {effectId : Str} {version : Int} {data : Items}
    (h : Allowed l (.transition effectId version .cancelled data)) :
    ∃ tenantId expectedVersion actor reason,
      l.procedure = .cancel tenantId effectId expectedVersion actor reason := by
  generalize hr : Request.transition effectId version .cancelled data = r at h
  cases h with
  | start _ _ hstarts =>
    cases hr
    cases hstarts with
    | cancel hprocedure => exact ⟨_, _, _, _, hprocedure⟩
    | resolve _ _ hresolution => cases hresolution
  | settle _ hsettles =>
    cases hr
    exact absurd rfl hsettles.ne_cancelled
  | call hcall =>
    subst hr
    cases Hold.external_of_call? hcall
  | _ => cases hr

/-- An effect whose cancel returned is cancelled. -/
theorem cancelled_of_done {c : Nat} {tenantId e : Str} {expectedVersion : Int}
    {actor reason : Str} {reply : Reply}
    (h : (memoryBroker adapters).Reachable (.initial hashes tenantKeyProvider target) w)
    (hcall : .called c (.cancel tenantId e expectedVersion actor reason) ∈ w.log)
    (hdone : w.callers c = .running (.done reply)) :
    ∃ effect, w.shared.store.records.get? e = some effect ∧ effect.status = .cancelled := by
  obtain ⟨effectId, version, data, after, hm⟩ := cancel_ends h hcall hdone
  obtain ⟨u, v, input, hu, hs, ⟨resume, hrunning⟩, hresponse, hshared, hv⟩ :=
    h.at_answer (mem_exchangesOf.mp hm)
  -- the move is of the effect that the cancel names
  have hallowed : ∃ l, localOf callerProtocol u.log c = some l ∧
      Allowed l (.transition effectId version .cancelled data) := by
    have hconforms := (reachable_runs hu).2 c
    rw [hrunning] at hconforms
    obtain ⟨l, hl, hfollows, -⟩ := hconforms
    exact ⟨l, hl, hfollows.1⟩
  obtain ⟨l, hl, hallowed⟩ := hallowed
  obtain ⟨tenantId', version', actor', reason', hprocedure⟩ := hallowed.cancelled
  have hid : effectId = e := by
    have hmover := (reachable_coherent hu).mover c l hl
    have hcalled := mem_of_taskOf (Mover.mk.inj hmover).2.1
    obtain ⟨newer, hnewer⟩ := System.ReachableFrom.log_append (.trans _ (.step .start hs) hv)
    have := h.called_unique hcall (by rw [hnewer]; exact List.mem_append_right _ hcalled)
    rw [hprocedure] at this
    exact (Procedure.cancel.inj this).2.1.symm
  subst hid
  have hmoved : ∃ effect, v.shared.store.records.get? effectId = some effect ∧
      effect.status = .cancelled := by
    have hresult : (u.shared.store.transition input.now effectId version .cancelled data).1 =
        .ok after := hresponse.symm
    have hstore : v.shared.store =
        (u.shared.store.transition input.now effectId version .cancelled data).2 := by
      rw [hshared]
      rfl
    rcases u.shared.store.transition_cases input.now effectId version .cancelled data with
      ⟨exc, heq, -⟩ | ⟨record, -, -, -, heq⟩
    · rw [heq] at hresult
      cases hresult
    · rw [hstore, heq]
      exact ⟨_, by rw [InMemoryStore.moveRecord_records, if_pos rfl], rfl⟩
  obtain ⟨effect, hget, hstatus⟩ := hmoved
  exact ⟨effect, terminal_forever (hu.step hs) hget (by rw [hstatus]; rfl) hv, hstatus⟩

/-- **Cancellation is decisive.**  After a cancel that returned, the effect stays
cancelled, and no dispatch of it is in flight or ever begins.  A cancel that raised has
changed nothing with any of its answers. -/
theorem cancel_decisive {c : Nat} {tenantId e : Str} {expectedVersion : Int} {actor reason : Str}
    (h : (memoryBroker adapters).Reachable (.initial hashes tenantKeyProvider target) w)
    (hcall : .called c (.cancel tenantId e expectedVersion actor reason) ∈ w.log) :
    (∀ reply, w.callers c = .running (.done reply) →
      ∀ w', (memoryBroker adapters).ReachableFrom w w' → Cancelled w' e ∧
        ∀ newer, w'.log = newer ++ w.log → ∀ d effect attemptId,
          .began d (.dispatch effect attemptId) ∈ newer → effect.effectId ≠ e) ∧
    ∀ exc, w.callers c = .running (.raised exc) →
      ∀ u v input, (memoryBroker adapters).Reachable (.initial hashes tenantKeyProvider target) u →
        (memoryBroker adapters).step u (.answer c input) = some v →
        (memoryBroker adapters).ReachableFrom v w → v.shared.store = u.shared.store := by
  constructor
  · intro reply hdone w' hw'
    obtain ⟨record, hget, hstatus⟩ := cancelled_of_done h hcall hdone
    have later : ∀ {v}, (memoryBroker adapters).ReachableFrom w v → Cancelled v e := fun hv =>
      cancelled_of_status (System.ReachableFrom.trans _ h hv)
        ⟨record, terminal_forever h hget (by rw [hstatus]; rfl) hv, hstatus⟩
    refine ⟨later hw', fun newer hlog d effect attemptId hm he => ?_⟩
    obtain ⟨newest, mid, rfl⟩ := List.append_of_mem hm
    have hsplit : w'.log = newest ++ .began d (.dispatch effect attemptId) :: (mid ++ w.log) := by
      rw [hlog]
      simp
    obtain ⟨u, v, choice, hu, hs, -, hvlog, -⟩ := hw'.at_event hsplit
    refine (later (hu.step hs)).idle d effect attemptId ?_ he
    rw [hvlog]
    exact if_pos rfl
  · intro exc hraised u v input hu hs hv
    have hends : ∀ x ∈ exchangesOf w.log c, Harmless x := cancel_ends h hcall hraised
    obtain ⟨r, hshared, hlog⟩ := System.step_answer hs
    obtain ⟨newer, hnewer⟩ := hv.log_append
    have hharmless := hends ⟨r, _⟩ (mem_exchangesOf.mpr (by
      rw [hnewer, hlog]
      exact List.mem_append_right _ (List.mem_cons_self ..)))
    rw [hshared]
    cases r with
    | get | record => rfl
    | transition effectId version status data =>
      show (u.shared.store.transition input.now effectId version status data).2 = _
      rcases u.shared.store.transition_cases input.now effectId version status data with
        ⟨exc, heq, -⟩ | ⟨record, -, -, -, heq⟩
      · rw [heq]
      · exfalso
        have : Harmless ⟨.transition effectId version status data,
          (u.shared.store.transition input.now effectId version status data).1⟩ := hharmless
        rw [heq] at this
        exact this
    | _ => cases hharmless

/-- A caller submits the sample operation, and another cancels it. -/
def cancelledRun : List (Choice Procedure (Surroundings AnyAnswer)) :=
  let surroundings : Surroundings AnyAnswer :=
    ⟨sampleTime 0, [], .ok (), .error .overflowError, .error .overflowError⟩
  submitSample 0 (sampleContract .reconcilable 0) surroundings ++
    .call 1 (.cancel sampleTenant (effectIdOf 1) 0 (str "alice") (str "changed my mind")) ::
      List.replicate 3 (.answer 1 surroundings)

theorem called_sample : .called 1 (.cancel sampleTenant (effectIdOf 1) 0 (str "alice")
    (str "changed my mind")) ∈ (sampleWorld cancelledRun).log :=
  List.mem_of_getElem? (show _[3]? = _ from rfl)

theorem cancel_decisive_sample :
    (∃ reply, (sampleWorld cancelledRun).callers 1 = .running (.done reply)) ∧
    Cancelled (sampleWorld cancelledRun) (effectIdOf 1) :=
  ⟨⟨_, rfl⟩, ((cancel_decisive (sampleWorld_reachable cancelledRun) called_sample).1 _ rfl _ .start).1⟩

end
end EffectBroker
