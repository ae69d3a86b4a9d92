import EffectBroker.Budgets
import EffectBroker.SqliteSystem

/-!
# Every call ends

No procedure of the broker loops: each makes at most `Procedure.requests` requests of the store,
the adapters, the clock and the metrics, whatever they answer; a batch of a worker in proportion
to its limit.  Observations of latency are not among them.  So no caller runs for ever, and none
that awaits an answer is stuck (`calls_end`).  And effects are reserved by submissions alone, with
the contracts of their brokers.
-/
namespace EffectBroker
open Python Concurrency

/-- How many requests a procedure makes at most. -/
def Procedure.requests : Procedure → Nat
  | .submit .. => 2
  | .get .. => 1
  | .reconcile .. => 13
  | .cancel .. => 3
  | .resolve .. => 2
  | .dispatchOnce _ _ _ limit => 1 + 10 * limit.toNat

/-- No more effects are claimed than were asked for. -/
def ClaimsLimited : (r : Request) → Response r → Prop
  | .claimDue _ _ _ limit, response => ∀ claimed, response = .ok claimed → claimed.length ≤ limit.toNat
  | _, _ => True

/-- Submissions reserve effects, with the contract that their broker has for the tool. -/
def Procedure.Asks (procedure : Procedure) : Request → Prop
  | .reserve tenantId request contract => ∃ broker, procedure = .submit broker tenantId request ∧
      broker.contracts.get request.tool = .ok contract
  | _ => True

/-- The program makes at most `n` requests, of those that the procedure asks for. -/
def Costs {α : Type} (procedure : Procedure) (n : Nat) (p : Program α) : Prop :=
  p.Takes Procedure.requests Procedure.Asks ClaimsLimited procedure n fun _ => True

/-! ## Rules -/

section
variable {α β : Type} {procedure : Procedure} {n m : Nat} {p : Program α} {f : α → Program β}

theorem Costs.mono (h : Costs procedure n p) (hn : n ≤ m) : Costs procedure m p :=
  Coroutine.Takes.mono h hn fun _ => id

theorem Costs.bind (h : Costs procedure n p) (hf : ∀ value, Costs procedure m (f value)) :
    Costs procedure (n + m) (p >>= f) :=
  Coroutine.Takes.bind h fun value _ => hf value

theorem Costs.tryCatch {handler : Exc → Program α} (h : Costs procedure n p)
    (hhandler : ∀ exc, Costs procedure m (handler exc)) :
    Costs procedure (n + m) (MonadExcept.tryCatch p handler) := Coroutine.Takes.tryCatch h hhandler

theorem costs_pure {value : α} : Costs procedure 0 (pure value) := Coroutine.takes_pure trivial

theorem costs_throw {exc : Exc} : Costs procedure 0 (throw exc : Program α) := Coroutine.takes_throw

theorem costs_ofExcept {result : Except Exc α} : Costs procedure 0 (Coroutine.ofExcept result) :=
  Coroutine.takes_ofExcept fun _ _ => trivial

theorem costs_request {r : Request} (h : procedure.Asks r) : Costs procedure 1 (Coroutine.request r) :=
  (Coroutine.takes_request h).mono (Nat.le_refl 1) fun _ _ => trivial

/-- A request whose answer is a value or an exception. -/
theorem costs_asked {r : Request} {result : Response r → Except Exc α} (h : procedure.Asks r) :
    Costs procedure 1 (Coroutine.request r >>= fun response => Coroutine.ofExcept (result response)) :=
  (costs_request h).bind fun _ => costs_ofExcept

end

/-! ## Procedures -/

section
variable {procedure : Procedure} {effect : EffectRecord}

theorem costs_record {metric : Metric} : Costs procedure 1 (Program.record metric) :=
  costs_request trivial

theorem costs_clock : Costs procedure 1 Program.clock := costs_request trivial

theorem costs_addTime {t : Datetime} {d : Timedelta} : Costs procedure 0 (Program.addTime t d) := by
  unfold Program.addTime
  cases t.add d with
  | none => exact costs_throw
  | some u => exact costs_pure

/-- The program raises within one request. -/
def Raises {α : Type} (procedure : Procedure) (p : Program α) : Prop :=
  p.Takes Procedure.requests Procedure.Asks ClaimsLimited procedure 1 fun _ => False

/-- A handler that may record a metric, and raises. -/
theorem raises_recorded {metric : Metric} {exc : Exc} {α : Type} :
    Raises procedure (Program.record metric >>= fun _ => (throw exc : Program α)) :=
  Coroutine.Takes.bind costs_record fun _ _ => Coroutine.takes_throw

theorem raises_again {exc : Exc} {α : Type} : Raises procedure (throw exc : Program α) :=
  Coroutine.takes_throw.mono (Nat.zero_le 1) fun _ => id

/-- The move, and the record of it or of its conflict. -/
theorem costs_transitionAndRecord {target : EffectStatus} {data : Items} :
    Costs procedure 2 (transitionAndRecord effect target data) := by
  have hmove : Costs procedure 1 (Program.transition effect.effectId effect.version target data) :=
    costs_asked trivial
  refine Coroutine.Takes.bindCatch hmove (fun exc => ?_) fun after _ =>
    costs_record.bind fun _ => costs_pure
  split
  · exact raises_recorded
  · exact raises_again

theorem costs_transitionCommitted {attemptId : Str} {result : DispatchReturn} :
    Costs procedure 2 (transitionCommitted effect attemptId result) :=
  costs_ofExcept.bind fun _ => costs_ofExcept.bind fun _ => costs_transitionAndRecord

theorem costs_startAttempt {e workerId : Str} {version : Int} :
    Costs procedure 1 (Program.startAttempt e version workerId) := costs_asked trivial

theorem costs_adapterFor : Costs procedure 1 (Program.adapterFor effect) := costs_asked trivial

theorem costs_callAndRecord {attemptId : Str} : Costs procedure 4 (callAndRecord effect attemptId) := by
  have hdispatch : Costs procedure 1 (Program.dispatch effect attemptId) := costs_asked trivial
  refine costs_adapterFor.bind fun _ => (hdispatch.bind fun result => ?_ : Costs _ (1 + 2) _)
  refine (costs_ofExcept.bind fun committed => ?_ : Costs _ (0 + 2) _)
  split
  · exact costs_transitionCommitted
  · exact costs_transitionAndRecord

theorem costs_recordFailure {attemptId : Str} {exc : Exc} :
    Costs procedure 2 (recordFailure effect attemptId exc) := by
  unfold recordFailure
  split
  · exact costs_transitionAndRecord
  · exact costs_transitionAndRecord

theorem costs_dispatchEffect {workerId : Str} : Costs procedure 10 (dispatchEffect workerId effect) := by
  refine (costs_transitionAndRecord.bind fun dispatching => ?_ : Costs _ (2 + 8) _)
  refine (costs_startAttempt.bind fun attemptId => ?_ : Costs _ (1 + 7) _)
  refine (costs_record.bind fun _ => ?_ : Costs _ (1 + 6) _)
  exact costs_callAndRecord.tryCatch fun exc => costs_recordFailure

theorem costs_dispatchAll {workerId : Str} {claimed : List EffectRecord} {n : Nat}
    (h : claimed.length ≤ n) : Costs procedure (10 * n) (dispatchAll workerId claimed) := by
  induction claimed generalizing n with
  | nil => exact costs_pure.mono (Nat.zero_le _)
  | cons effect claimed ih =>
    cases n with
    | zero => cases h
    | succ n =>
      have hrest : Costs procedure (10 * n) (dispatchAll workerId claimed) := ih (Nat.le_of_succ_le_succ h)
      refine Costs.mono (n := 10 + (10 * n + 0)) ?_ (by omega)
      exact costs_dispatchEffect.bind fun result => hrest.bind fun results => costs_pure

theorem costs_dispatchOnce {workerId : Str} {now : Datetime} {leaseFor : Timedelta} {limit : Int} :
    Costs procedure (1 + 10 * limit.toNat) (dispatchOnce workerId now leaseFor limit) := by
  have hclaimed : (Program.claimDue workerId now leaseFor limit).Takes Procedure.requests Procedure.Asks
      ClaimsLimited procedure 1 fun claimed => claimed.length ≤ limit.toNat :=
    Coroutine.Takes.bind (Coroutine.takes_request trivial) fun response hlimited =>
      Coroutine.takes_ofExcept fun claimed hclaimed => hlimited claimed hclaimed
  -- ten requests for each claimed effect, of which there are no more than the limit
  exact Coroutine.Takes.bind hclaimed fun claimed hlength => costs_dispatchAll hlength

theorem costs_recordRetentionRemaining : Costs procedure 2 (recordRetentionRemaining effect) := by
  unfold recordRetentionRemaining
  split
  · exact costs_record.mono (by omega)
  · exact costs_addTime.bind fun horizon => (costs_clock.bind fun now => costs_record : Costs _ (1 + 1) _)

theorem costs_keyRetentionValid : Costs procedure 1 (keyRetentionValid effect) := by
  unfold keyRetentionValid
  split
  · exact costs_pure.mono (Nat.zero_le 1)
  · exact costs_clock.bind fun now => (costs_addTime.bind fun horizon => costs_pure : Costs _ (0 + 0) _)

theorem costs_recordRedispatch {attemptId : Str} {result : DispatchReturn} :
    Costs procedure 3 (recordRedispatch effect attemptId result) := by
  refine (costs_ofExcept.bind fun committed => ?_ : Costs _ (0 + 3) _)
  split
  · exact (costs_record.bind fun _ => costs_transitionCommitted : Costs _ (1 + 2) _)
  · exact (costs_record.bind fun _ => costs_transitionAndRecord : Costs _ (1 + 2) _)

theorem costs_recordRedispatchFailure {attemptId : Str} {exc : Exc} :
    Costs procedure 3 (recordRedispatchFailure effect attemptId exc) := by
  unfold recordRedispatchFailure
  split
  · exact (costs_record.bind fun _ => costs_transitionAndRecord : Costs _ (1 + 2) _)
  · exact (costs_record.bind fun _ => costs_transitionAndRecord : Costs _ (1 + 2) _)

theorem costs_redispatch : Costs procedure 12 (redispatch effect) := by
  refine (costs_recordRetentionRemaining.bind fun _ => ?_ : Costs _ (2 + 10) _)
  refine (costs_keyRetentionValid.bind fun valid => ?_ : Costs _ (1 + 9) _)
  split
  · refine (costs_transitionAndRecord.bind fun dispatching => ?_ : Costs _ (2 + 7) _)
    refine (costs_startAttempt.bind fun attemptId => ?_ : Costs _ (1 + 6) _)
    refine (costs_record.bind fun _ => ?_ : Costs _ (1 + 5) _)
    refine (costs_adapterFor.bind fun _ => ?_ : Costs _ (1 + 4) _)
    -- here the answer itself is inspected, and an exception is recorded
    have hasked : Costs procedure 1 (Coroutine.request (.dispatch dispatching attemptId)) :=
      costs_request trivial
    refine (hasked.bind fun answer => ?_ : Costs _ (1 + 3) _)
    cases answer with
    | ok result => exact costs_recordRedispatch
    | error exc => exact costs_recordRedispatchFailure
  · exact (costs_record.bind fun _ => costs_transitionAndRecord : Costs _ (1 + 2) _).mono (by omega)

theorem costs_recordProbe {probe : ProbeReturn} : Costs procedure 3 (recordProbe effect probe) := by
  refine (costs_ofExcept.bind fun status => ?_ : Costs _ (0 + 3) _)
  refine (costs_record.bind fun _ => ?_ : Costs _ (1 + 2) _)
  split
  · exact costs_ofExcept.bind fun _ => costs_ofExcept.bind fun _ => costs_ofExcept.bind fun _ =>
      costs_transitionAndRecord
  · exact costs_ofExcept.bind fun _ => costs_transitionAndRecord
  · exact costs_ofExcept.bind fun _ => costs_transitionAndRecord

theorem costs_probeTarget : Costs procedure 7 (probeTarget effect) := by
  refine (costs_transitionAndRecord.bind fun reconciling => ?_ : Costs _ (2 + 5) _)
  refine (costs_adapterFor.bind fun _ => ?_ : Costs _ (1 + 4) _)
  have hprobe : Costs procedure 1 (Program.probe reconciling) := costs_asked trivial
  exact (hprobe.bind fun probe => costs_recordProbe : Costs _ (1 + 3) _)

theorem costs_get {tenantId e : Str} : Costs procedure 1 (Broker.get tenantId e) := by
  have hasked : Costs procedure 1 (Program.get tenantId e) := costs_asked trivial
  refine (hasked.bind fun effect? => ?_ : Costs _ (1 + 0) _)
  cases effect? with
  | none => exact costs_throw
  | some effect => exact costs_pure

theorem costs_reconcile {broker : Broker} {tenantId e : Str} :
    Costs procedure 13 (broker.reconcile tenantId e) := by
  unfold Broker.reconcile
  split
  · refine (costs_get.bind fun effect => ?_ : Costs _ (1 + 12) _)
    unfold reconcileOnce
    split
    · exact costs_redispatch
    · exact costs_probeTarget.mono (by omega)
    · exact (costs_record.bind fun _ => costs_transitionAndRecord : Costs _ (1 + 2) _).mono (by omega)
  · exact costs_throw.mono (Nat.zero_le _)

theorem costs_submit {broker : Broker} {tenantId : Str} {request : EffectRequest} :
    Costs (.submit broker tenantId request) 2 (broker.submit tenantId request) := by
  have hget : (Coroutine.ofExcept (broker.contracts.get request.tool) : Program EffectContract).Takes
      Procedure.requests Procedure.Asks ClaimsLimited (.submit broker tenantId request) 0
        fun contract => broker.contracts.get request.tool = .ok contract :=
    Coroutine.takes_ofExcept fun _ h => h
  refine (Coroutine.Takes.bind hget fun contract hcontract => ?_ : Costs _ (0 + 2) _)
  have hreserve : Costs (.submit broker tenantId request) 1 (Program.reserve tenantId request contract) :=
    costs_asked ⟨broker, rfl, hcontract⟩
  refine Coroutine.Takes.bindCatch hreserve (fun exc => ?_) fun reservation _ =>
    costs_record.bind fun _ => costs_pure
  split
  · exact raises_recorded
  · exact raises_again

theorem costs_cancel {tenantId e actor reason : Str} {expectedVersion : Int} :
    Costs procedure 3 (Broker.cancel tenantId e expectedVersion actor reason) := by
  refine (costs_get.bind fun effect => ?_ : Costs _ (1 + 2) _)
  split
  · exact costs_throw.mono (Nat.zero_le _)
  · split
    · exact costs_throw.mono (Nat.zero_le _)
    · have hmove : Costs procedure 1 (Program.transition effect.effectId expectedVersion .cancelled
          [(text "actor", .str actor), (text "reason", .str reason)]) := costs_asked trivial
      exact hmove.bind fun _ => costs_record.bind fun _ => costs_pure

theorem costs_resolve {tenantId e : Str} {resolution : EffectStatus} {evidence : Items} :
    Costs procedure 2 (Broker.resolve tenantId e resolution evidence) := by
  refine (costs_get.bind fun effect => ?_ : Costs _ (1 + 1) _)
  split
  · exact costs_throw.mono (Nat.zero_le _)
  · split
    · exact costs_throw.mono (Nat.zero_le _)
    · exact costs_asked trivial

/-- Each procedure keeps to its number of requests. -/
theorem costs_program (procedure : Procedure) : Costs procedure procedure.requests procedure.program := by
  cases procedure with
  | submit => exact costs_submit.bind fun _ => costs_pure
  | get => exact costs_get.bind fun _ => costs_pure
  | reconcile => exact costs_reconcile.bind fun _ => costs_pure
  | cancel => exact costs_cancel.bind fun _ => costs_pure
  | resolve => exact costs_resolve.bind fun _ => costs_pure
  | dispatchOnce => exact costs_dispatchOnce.bind fun _ => costs_pure

end

/-! ## Stores -/

theorem InMemoryStore.claimLoop_limited {workerId : Str} {now : Datetime} {leaseFor : Timedelta} {limit : Int}
    {items : List (Str × EffectRecord)} {s : InMemoryStore} {claimed results : List EffectRecord}
    (h : (claimLoop workerId now leaseFor limit items s claimed).1 = .ok results)
    (hclaimed : claimed.length ≤ limit.toNat) : results.length ≤ limit.toNat := by
  induction items generalizing s claimed with
  | nil =>
    cases h
    exact hclaimed
  | cons item items ih =>
    rw [claimLoop] at h
    split at h
    · cases h
      exact hclaimed
    · rename_i hmore
      split at h
      · exact ih h hclaimed
      · split at h
        · exact ih h hclaimed
        · simp only at h
          split at h
          · cases h
          · refine ih h ?_
            rw [List.length_append, List.length_singleton]
            omega

theorem InMemoryStore.claimDue_limited {s : InMemoryStore} {workerId : Str} {now : Datetime}
    {leaseFor : Timedelta} {limit : Int} {results : List EffectRecord}
    (h : (s.claimDue workerId now leaseFor limit).1 = .ok results) : results.length ≤ limit.toNat := by
  unfold claimDue at h
  split at h
  · cases h
    exact Nat.zero_le _
  · exact claimLoop_limited h (Nat.zero_le _)

theorem SqliteStore.claimLoop_limited {workerId : Str} {now leaseUntil : Datetime} {limit : Int}
    {rows : List SqliteEffectRow} {s : SqliteStore} {claimed : List EffectRecord}
    {out : List EffectRecord × SqliteStore}
    (h : claimLoop workerId now leaseUntil limit rows s claimed = .ok out)
    (hclaimed : claimed.length ≤ limit.toNat) : out.1.length ≤ limit.toNat := by
  induction rows generalizing s claimed with
  | nil =>
    cases h
    exact hclaimed
  | cons row rows ih =>
    rw [claimLoop] at h
    split at h
    · cases h
      exact hclaimed
    · obtain ⟨active, -, h⟩ := bind_eq_ok.mp h
      split at h
      · exact ih h hclaimed
      · obtain ⟨⟨updated, s'⟩, -, h⟩ := bind_eq_ok.mp h
        refine ih h ?_
        rw [List.length_append, List.length_singleton]
        omega

theorem SqliteStore.claimDue_limited {s : SqliteStore} {workerId : Str} {now : Datetime}
    {leaseFor : Timedelta} {limit : Int} {out : List EffectRecord × SqliteStore}
    (h : s.claimDue workerId now leaseFor limit = .ok out) : out.1.length ≤ limit.toNat := by
  unfold claimDue at h
  split at h
  · cases h
    exact Nat.zero_le _
  · split at h
    · cases h
    · exact claimLoop_limited h (Nat.zero_le _)

/-- A store that claims no more than it is asked for. -/
def EffectStore.Limited {Store : Type} (store : EffectStore Store) : Prop :=
  ∀ s workerId now leaseFor limit claimed, (store.claimDue s workerId now leaseFor limit).1 = .ok claimed →
    claimed.length ≤ limit.toNat

theorem memoryStore_limited : memoryStore.Limited :=
  fun _ _ _ _ _ _ h => InMemoryStore.claimDue_limited h

theorem sqliteStore_limited : sqliteStore.Limited := by
  intro s workerId now leaseFor limit claimed h
  cases hclaim : s.claimDue workerId now leaseFor limit with
  | error exc =>
    simp only [sqliteStore, hclaim] at h
    cases h
  | ok out =>
    simp only [sqliteStore, hclaim] at h
    cases h
    exact SqliteStore.claimDue_limited hclaim

/-! ## Runs -/

section
variable {Store Target Decision : Type} {store : EffectStore Store} {adapters : Adapters Target Decision}
  {init : Shared Store Target} {w : World Response Exc Procedure Reply (Shared Store Target)} {c : Nat}
  {procedure : Procedure}

theorem claimsLimited_serve (hstore : store.Limited) (r : Request) (surroundings : Surroundings Decision)
    (s : Shared Store Target) : ClaimsLimited r (serve store adapters r surroundings s).1 := by
  cases r with
  | claimDue workerId now leaseFor limit => exact hstore s.store workerId now leaseFor limit
  | _ => trivial

/-- The call has had no more answers than its procedure requests, and as long as it awaits one,
has fewer, and can begin it or be given it. -/
structure EndsInTime (store : EffectStore Store) (adapters : Adapters Target Decision)
    (w : World Response Exc Procedure Reply (Shared Store Target)) (c : Nat) (procedure : Procedure) :
    Prop where
  answered : (exchangesOf w.log c).length ≤ procedure.requests
  awaiting : ∀ r resume, w.callers c = .running (.await r resume) →
    (exchangesOf w.log c).length < procedure.requests ∧ ∀ surroundings,
      ((broker store adapters).step w (.begin c)).isSome ∨
        ((broker store adapters).step w (.answer c surroundings)).isSome

theorem endsInTime_of_limited (hstore : store.Limited) (h : (broker store adapters).Reachable init w)
    (htask : taskIn w.log c = some procedure) : EndsInTime store adapters w c procedure := by
  obtain ⟨hanswered, hawaiting⟩ := within_budget costs_program (claimsLimited_serve hstore) h htask
  exact ⟨hanswered, fun r resume hrunning => ⟨hawaiting r resume hrunning, System.goes_on hrunning⟩⟩

end

/-- **Every call ends**: over the in-memory store and over the SQLite store, whatever the adapters,
the other callers and the clock do, no call is answered more often than its procedure requests,
and none is ever stuck before that. -/
theorem calls_end {Target Decision : Type} (adapters : Adapters Target Decision) (hashes : Hashes)
    (tenantKeyProvider : TenantKeyProvider) (target : Target) :
    (∀ w, (memoryBroker adapters).Reachable (.initial hashes tenantKeyProvider target) w →
      ∀ c procedure, taskIn w.log c = some procedure → EndsInTime memoryStore adapters w c procedure) ∧
    ∀ w, (sqliteBroker adapters).Reachable (.initialSqlite hashes tenantKeyProvider target) w →
      ∀ c procedure, taskIn w.log c = some procedure → EndsInTime sqliteStore adapters w c procedure :=
  ⟨fun _ h _ _ htask => endsInTime_of_limited memoryStore_limited h htask,
    fun _ h _ _ htask => endsInTime_of_limited sqliteStore_limited h htask⟩

/-- A worker has begun to dispatch the sample effect. -/
theorem calls_end_sample :
    let surroundings : Surroundings AnyAnswer :=
      ⟨sampleTime 0, [], .ok (), .error .overflowError, .error .overflowError⟩
    let w := sampleWorld (submitSample 0 (sampleContract .idempotent 0) surroundings ++
      claimSample 1 (sampleTime 0) surroundings)
    (exchangesOf w.log 1).length = 6 ∧
      EndsInTime memoryStore anyAdapters w 1 (.dispatchOnce (str "w") (sampleTime 0) .zero 1) := by
  intro surroundings w
  exact ⟨by decide +kernel, (calls_end anyAdapters sampleHashes sampleKeys ()).1 w
    (sampleWorld_reachable _) 1 _ rfl⟩

end EffectBroker
