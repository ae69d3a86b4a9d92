import EffectBroker.CallerProtocol

/-!
# The procedures follow the protocol

One lemma for each procedure of the worker, the reconciler and the service, from the
requests up to `Procedure.program`.
-/
namespace EffectBroker
open Python Concurrency Coroutine

namespace CallerState

/-- The caller has read these records. -/
def learn (l : CallerState) (effects : List EffectRecord) : CallerState :=
  { l with known := effects ++ l.known }

/-- The caller has moved an effect. -/
def moved (l : CallerState) (after : EffectRecord) : CallerState :=
  { l with known := after :: l.known, hold := .entering l.procedure.route after }

/-- The caller has started an attempt. -/
def started (l : CallerState) (attemptId : Str) : CallerState :=
  { l with hold := l.hold.started attemptId }

/-- `adapter_for` has answered the caller. -/
def builtWith (l : CallerState) (answer : Except Exc Unit) : CallerState :=
  { l with hold := l.hold.builtWith answer }

/-- The caller's dispatch has ended. -/
def dispatchedWith (l : CallerState) (answer : Except Exc DispatchReturn) : CallerState :=
  { l with hold := l.hold.dispatchedWith answer }

/-- The caller's probe has ended. -/
def probedWith (l : CallerState) (answer : Except Exc ProbeReturn) : CallerState :=
  { l with hold := l.hold.probedWith answer }

end CallerState

section
variable {l : CallerState}

/-- A procedure that only ends, in any way. -/
abbrev anyEnd {α : Type} : CallerState → Except Exc α → Prop := fun _ _ => True

theorem follows_record {metric : Metric} {Q : CallerState → Except Exc Unit → Prop}
    (h : Q l (.ok ())) : (Program.record metric).Follows callerProtocol l Q :=
  ⟨.record, fun _ _ => h⟩

theorem follows_clock {Q : CallerState → Except Exc Datetime → Prop}
    (h : ∀ now, Q { l with clock := some now } (.ok now)) :
    Program.clock.Follows callerProtocol l Q :=
  ⟨.clock, fun now _ => h now⟩

theorem follows_addTime {t : Datetime} {d : Timedelta} {Q : CallerState → Except Exc Datetime → Prop}
    (hok : ∀ u, t.add d = some u → Q l (.ok u)) (herror : Q l (.error .overflowError)) :
    (Program.addTime t d).Follows callerProtocol l Q := by
  unfold Program.addTime
  cases h : t.add d with
  | none => exact herror
  | some u => exact hok u h

theorem follows_transition {effectId : Str} {version : Int} {target : EffectStatus} {data : Items}
    {Q : CallerState → Except Exc EffectRecord → Prop}
    (ha : Allowed l (.transition effectId version target data))
    (hok : ∀ after : EffectRecord, after.status = target → Q (l.moved after) (.ok after))
    (herror : ∀ exc, exc.isAdapterError = false → Q l (.error exc)) :
    (Program.transition effectId version target data).Follows callerProtocol l Q := by
  refine ⟨ha, fun response hp => ?_⟩
  cases response with
  | ok after => exact hok after hp
  | error exc => exact herror exc hp

theorem follows_transitionAndRecord {before : EffectRecord} {target : EffectStatus} {data : Items}
    {Q : CallerState → Except Exc EffectRecord → Prop}
    (ha : Allowed l (.transition before.effectId before.version target data))
    (hok : ∀ after : EffectRecord, after.status = target → Q (l.moved after) (.ok after))
    (herror : ∀ exc, exc.isAdapterError = false → Q l (.error exc)) :
    (transitionAndRecord before target data).Follows callerProtocol l Q := by
  refine follows_bind.mpr (follows_tryCatch.mpr
    (follows_transition ha (fun after hstatus => ?_) (fun exc hexc => ?_)))
  · exact follows_bind.mpr (follows_record (hok after hstatus))
  · by_cases hv : exc.isVersionConflict
    · simp only [hv, if_true]
      exact follows_bind.mpr (follows_record (herror exc hexc))
    · simp only [hv]
      exact herror exc hexc

theorem follows_startAttempt {effectId : Str} {version : Int} {workerId : Str}
    {Q : CallerState → Except Exc Str → Prop}
    (ha : Allowed l (.startAttempt effectId version workerId))
    (hok : ∀ attemptId, Q (l.started attemptId) (.ok attemptId))
    (herror : ∀ exc, Q l (.error exc)) :
    (Program.startAttempt effectId version workerId).Follows callerProtocol l Q := by
  refine ⟨ha, fun response _ => ?_⟩
  cases response with
  | ok attemptId => exact hok attemptId
  | error exc => exact herror exc

theorem follows_adapterFor {effect : EffectRecord} {Q : CallerState → Except Exc Unit → Prop}
    (ha : Allowed l (.adapterFor effect)) (h : ∀ answer, Q (l.builtWith answer) answer) :
    (Program.adapterFor effect).Follows callerProtocol l Q := by
  refine ⟨ha, fun response _ => ?_⟩
  cases response <;> exact h _

theorem follows_dispatch {effect : EffectRecord} {attemptId : Str}
    {Q : CallerState → Except Exc DispatchReturn → Prop}
    (ha : Allowed l (.dispatch effect attemptId)) (h : ∀ answer, Q (l.dispatchedWith answer) answer) :
    (Program.dispatch effect attemptId).Follows callerProtocol l Q := by
  refine ⟨ha, fun response _ => ?_⟩
  cases response <;> exact h _

theorem follows_probe {effect : EffectRecord} {Q : CallerState → Except Exc ProbeReturn → Prop}
    (ha : Allowed l (.probe effect)) (h : ∀ answer, Q (l.probedWith answer) answer) :
    (Program.probe effect).Follows callerProtocol l Q := by
  refine ⟨ha, fun response _ => ?_⟩
  cases response <;> exact h _

/-! ## Settling -/

/-- The caller holds nothing, runs this procedure, and still knows these records. -/
def Idle (procedure : Procedure) (known : List EffectRecord) (l : CallerState) : Prop :=
  l.hold = .free ∧ l.procedure = procedure ∧ known ⊆ l.known

/-- The caller is back to holding nothing if it has a result. -/
def EndsIdle {α : Type} (procedure : Procedure) (known : List EffectRecord) (l : CallerState) :
    Except Exc α → Prop
  | .ok _ => Idle procedure known l
  | .error _ => True

theorem moved_idle {after : EffectRecord} (h : after.status.isHeld = false) :
    Idle l.procedure l.known (l.moved after) := by
  refine ⟨?_, rfl, List.subset_cons_self _ _⟩
  unfold CallerState.moved Hold.entering
  cases hs : after.status <;> rw [hs] at h <;> first | rfl | cases h

/-- A holder settles its effect. -/
theorem follows_settle {effect : EffectRecord} {target : EffectStatus} {data : Items}
    {Q : CallerState → Except Exc EffectRecord → Prop} (hr : l.hold.record? = some effect)
    (hs : Settles l.hold target data) (ht : target.isHeld = false)
    (hok : ∀ l' after, Idle l.procedure l.known l' → Q l' (.ok after))
    (herror : ∀ exc, exc.isAdapterError = false → Q l (.error exc)) :
    (transitionAndRecord effect target data).Follows callerProtocol l Q :=
  follows_transitionAndRecord (.settle hr hs)
    (fun after hstatus => hok _ after (moved_idle (by rw [hstatus]; exact ht))) herror

/-- A caller that holds nothing moves an effect to a status that nobody holds. -/
theorem follows_release {effect : EffectRecord} {target : EffectStatus} {data : Items}
    (hf : l.hold = .free) (hk : effect ∈ l.known) (hs : Starts l.procedure l.clock effect target data) :
    (transitionAndRecord effect target data).Follows callerProtocol l anyEnd :=
  follows_transitionAndRecord (.start hf hk hs) (fun _ _ => trivial) (fun _ _ => trivial)

theorem nonCommitTarget_not_held (effect : EffectRecord) (attemptId : Str) :
    (nonCommitTarget effect attemptId).isHeld = false := by
  unfold nonCommitTarget
  split <;> rfl

/-! ## The worker -/

/-- What the handlers of the loop rely on when they catch an exception. -/
inductive Caught (effect : EffectRecord) (attemptId : Str) (exc : Exc) : Hold → Prop where
  | built : Caught effect attemptId exc (.built .worker effect attemptId (.error exc))
  | dispatched {answer} : (exc.isAdapterError → ProvesNonCommit answer) →
      Caught effect attemptId exc (.dispatched .worker effect attemptId answer)

theorem follows_transitionCommitted {route : Route} {effect : EffectRecord} {attemptId : Str}
    {result : DispatchReturn} {Q : CallerState → Except Exc EffectRecord → Prop}
    (h : l.hold = .dispatched route effect attemptId (.ok result))
    (hc : result.committed = .ok true) (hok : ∀ l' after, Idle l.procedure l.known l' → Q l' (.ok after))
    (hread : ∀ exc, result.externalId = .error exc ∨ result.output = .error exc → Q l (.error exc))
    (herror : ∀ exc, exc.isAdapterError = false → Q l (.error exc)) :
    (transitionCommitted effect attemptId result).Follows callerProtocol l Q := by
  refine follows_bind.mpr (follows_ofExcept.mpr ?_)
  cases hx : result.externalId with
  | error exc => exact hread exc (.inl hx)
  | ok externalId =>
    refine follows_bind.mpr (follows_ofExcept.mpr ?_)
    cases ho : result.output with
    | error exc => exact hread exc (.inr ho)
    | ok output =>
      exact follows_settle (by rw [h]; rfl) (by rw [h]; exact .committed hc hx ho) rfl hok herror

theorem follows_callAndRecord {effect : EffectRecord} {attemptId : Str}
    (h : l.hold = .attempted .worker effect attemptId) :
    (callAndRecord effect attemptId).Follows callerProtocol l fun l' result =>
      match result with
      | .ok _ => Idle l.procedure l.known l'
      | .error exc => Caught effect attemptId exc l'.hold ∧ l'.procedure = l.procedure ∧
          l'.known = l.known := by
  refine follows_bind.mpr (follows_adapterFor (.build h) (fun answer => ?_))
  have hb : l.builtWith answer = { l with hold := .built .worker effect attemptId answer } := by
    simp [CallerState.builtWith, Hold.builtWith, h]
  rw [hb]
  cases answer with
  | error exc => exact ⟨.built, rfl, rfl⟩
  | ok _ =>
    refine follows_bind.mpr (follows_dispatch (.call rfl) (fun answer => ?_))
    cases answer with
    | error exc => exact ⟨.dispatched .raised, rfl, rfl⟩
    | ok result =>
      refine follows_bind.mpr (follows_ofExcept.mpr ?_)
      cases hc : result.committed with
      | error exc => exact ⟨.dispatched fun he => .read he (.inl hc), rfl, rfl⟩
      | ok committed =>
        cases committed with
        | true =>
          exact follows_transitionCommitted rfl hc (fun _ _ hi => hi)
            (fun exc hr => ⟨.dispatched fun he => .read he (.inr ⟨hc, hr⟩), rfl, rfl⟩)
            (fun exc he => ⟨.dispatched fun he' => absurd he' (by simp [he]), rfl, rfl⟩)
        | false =>
          exact follows_settle rfl .unknown rfl (fun _ _ hi => hi)
            (fun exc he => ⟨.dispatched fun he' => absurd he' (by simp [he]), rfl, rfl⟩)

theorem Caught.record? {effect : EffectRecord} {attemptId : Str} {exc : Exc} {h : Hold}
    (hc : Caught effect attemptId exc h) : h.record? = some effect := by
  cases hc <;> rfl

theorem Caught.settles {effect : EffectRecord} {attemptId : Str} {exc : Exc} {h : Hold}
    (hc : Caught effect attemptId exc h) (data : Items) :
    Settles h (if exc.isAdapterError then nonCommitTarget effect attemptId else .outcomeUnknown)
      data := by
  by_cases he : exc.isAdapterError
  · simp only [he, if_true]
    cases hc with
    | built => exact .refused he
    | dispatched hp => exact .nonCommit (hp he)
  · simp only [he]
    cases hc with
    | built => exact .unbuilt
    | dispatched hp => exact .unknown

theorem follows_recordFailure {effect : EffectRecord} {attemptId : Str} {exc : Exc}
    (h : Caught effect attemptId exc l.hold) :
    (recordFailure effect attemptId exc).Follows callerProtocol l (EndsIdle l.procedure l.known) := by
  have hs := h.settles
  unfold recordFailure
  by_cases he : exc.isAdapterError
  · simp only [he, if_true] at hs ⊢
    exact follows_settle h.record? (hs _) (nonCommitTarget_not_held effect attemptId)
      (fun _ _ hi => hi) (fun _ _ => trivial)
  · simp only [he] at hs ⊢
    exact follows_settle h.record? (hs _) rfl (fun _ _ hi => hi) (fun _ _ => trivial)

theorem follows_dispatchEffect {workerId : Str} {effect : EffectRecord} (hf : l.hold = .free)
    (hw : l.procedure.route = .worker) (hk : effect ∈ l.known) (hc : effect.status.isClaimable) :
    (dispatchEffect workerId effect).Follows callerProtocol l (EndsIdle l.procedure l.known) := by
  refine follows_bind.mpr (follows_transitionAndRecord (.start hf hk (.claimed hw hc))
    (fun dispatching hstatus => ?_) (fun _ _ => trivial))
  have he : (l.moved dispatching).hold = .entered .worker dispatching := by
    simp [CallerState.moved, Hold.entering, hstatus, hw]
  refine follows_bind.mpr (follows_startAttempt (.attempt he) (fun attemptId => ?_)
    (fun _ => trivial))
  have hs : (l.moved dispatching).started attemptId =
      { l.moved dispatching with hold := .attempted .worker dispatching attemptId } := by
    simp [CallerState.started, Hold.started, he]
  rw [hs]
  refine follows_bind.mpr (follows_record (follows_tryCatch.mpr ?_))
  refine (follows_callAndRecord rfl).mono fun l' result h => ?_
  have hsub : l.known ⊆ (l.moved dispatching).known := List.subset_cons_self _ _
  cases result with
  | ok _ => exact ⟨h.1, h.2.1, List.Subset.trans hsub h.2.2⟩
  | error exc =>
    obtain ⟨hcaught, hprocedure, hknown⟩ := h
    refine (follows_recordFailure hcaught).mono fun l'' result h => ?_
    cases result with
    | ok _ => exact ⟨h.1, h.2.1.trans hprocedure, List.Subset.trans hsub (hknown ▸ h.2.2)⟩
    | error _ => trivial

theorem follows_dispatchAll {workerId : Str} {claimed : List EffectRecord} (hf : l.hold = .free)
    (hw : l.procedure.route = .worker) (hk : claimed ⊆ l.known)
    (hc : ∀ effect ∈ claimed, effect.status.isClaimable) :
    (dispatchAll workerId claimed).Follows callerProtocol l anyEnd := by
  induction claimed generalizing l with
  | nil => trivial
  | cons effect claimed ih =>
    obtain ⟨hhead, htail⟩ := List.forall_mem_cons.mp hc
    have hin := hk (List.mem_cons_self ..)
    refine follows_bind.mpr ((follows_dispatchEffect hf hw hin hhead).mono fun l' result h => ?_)
    cases result with
    | error _ => trivial
    | ok _ =>
      have hsub : claimed ⊆ l'.known := fun _ hm => h.2.2 (hk (List.mem_cons_of_mem _ hm))
      refine follows_bind.mpr ((ih h.1 (h.2.1 ▸ hw) hsub htail).mono fun _ result _ => ?_)
      cases result <;> trivial

theorem follows_dispatchOnce {workerId : Str} {now : Datetime} {leaseFor : Timedelta} {limit : Int}
    (hf : l.hold = .free) (hw : l.procedure.route = .worker) :
    (dispatchOnce workerId now leaseFor limit).Follows callerProtocol l anyEnd := by
  refine follows_bind.mpr (follows_bind.mpr ⟨.claimDue, fun response hp => ?_⟩)
  cases response with
  | error _ => trivial
  | ok claimed => exact follows_dispatchAll hf hw (List.subset_append_left _ _) hp

/-! ## The reconciler -/

/-- Reading the clock changes nothing else, and a successful check of the retention
leaves the reading that shows it. -/
theorem follows_recordRetentionRemaining {effect : EffectRecord}
    {Q : CallerState → Except Exc Unit → Prop} (hok : ∀ clock, Q { l with clock } (.ok ()))
    (herror : Q l (.error .overflowError)) :
    (recordRetentionRemaining effect).Follows callerProtocol l Q := by
  unfold recordRetentionRemaining
  cases effect.contract.keyRetention with
  | none => exact follows_record (hok l.clock)
  | some retention =>
    refine follows_bind.mpr (follows_addTime (fun horizon _ => ?_) herror)
    exact follows_bind.mpr (follows_clock fun now => follows_record (hok (some now)))

theorem follows_keyRetentionValid {effect : EffectRecord}
    {Q : CallerState → Except Exc Bool → Prop}
    (hvalid : ∀ clock, Retained effect clock → Q { l with clock } (.ok true))
    (hexpired : ∀ clock, Q { l with clock } (.ok false))
    (herror : ∀ clock, Q { l with clock } (.error .overflowError)) :
    (keyRetentionValid effect).Follows callerProtocol l Q := by
  unfold keyRetentionValid
  cases hr : effect.contract.keyRetention with
  | none => exact hexpired l.clock
  | some retention =>
    refine follows_bind.mpr (follows_clock fun now => follows_bind.mpr
      (follows_addTime (fun horizon hh => ?_) (herror _)))
    by_cases hle : now ≤ horizon
    · simp only [hle, decide_true]
      exact hvalid (some now) ⟨retention, horizon, now, hr, hh, rfl, hle⟩
    · simp only [hle, decide_false]
      exact hexpired (some now)

theorem follows_recordRedispatch {effect : EffectRecord} {attemptId : Str} {result : DispatchReturn}
    (h : l.hold = .dispatched .redispatch effect attemptId (.ok result)) :
    (recordRedispatch effect attemptId result).Follows callerProtocol l anyEnd := by
  refine follows_bind.mpr (follows_ofExcept.mpr ?_)
  cases hc : result.committed with
  | error _ => trivial
  | ok committed =>
    cases committed with
    | true =>
      exact follows_bind.mpr (follows_record (follows_transitionCommitted h hc
        (fun _ _ _ => trivial) (fun _ _ => trivial) (fun _ _ => trivial)))
    | false =>
      exact follows_bind.mpr (follows_record (follows_settle (by rw [h]; rfl)
        (by rw [h]; exact .unknown) rfl (fun _ _ _ => trivial) (fun _ _ => trivial)))

theorem follows_recordRedispatchFailure {effect : EffectRecord} {attemptId : Str} {exc : Exc}
    (h : l.hold = .dispatched .redispatch effect attemptId (.error exc)) :
    (recordRedispatchFailure effect attemptId exc).Follows callerProtocol l anyEnd := by
  unfold recordRedispatchFailure
  by_cases he : exc.isAdapterError
  · simp only [he, if_true]
    exact follows_bind.mpr (follows_record (follows_settle (by rw [h]; rfl)
      (by rw [h]; exact .redispatchNonCommit he) rfl (fun _ _ _ => trivial) (fun _ _ => trivial)))
  · simp only [he]
    exact follows_bind.mpr (follows_record (follows_settle (by rw [h]; rfl)
      (by rw [h]; exact .unknown) rfl (fun _ _ _ => trivial) (fun _ _ => trivial)))

theorem follows_redispatch {effect : EffectRecord} (hf : l.hold = .free) (hr : l.procedure.route = .redispatch)
    (hk : effect ∈ l.known) (hs : effect.contract.safety = .idempotent) :
    (redispatch effect).Follows callerProtocol l anyEnd := by
  refine follows_bind.mpr (follows_recordRetentionRemaining (fun _ => ?_) trivial)
  refine follows_bind.mpr (follows_keyRetentionValid (fun clock hret => ?_) (fun _ => ?_)
    (fun _ => trivial))
  · refine follows_bind.mpr (follows_transitionAndRecord (.start hf hk (.redispatch hr hs hret))
      (fun dispatching hstatus => ?_) (fun _ _ => trivial))
    have he : (CallerState.moved { l with clock } dispatching).hold =
        .entered .redispatch dispatching := by simp [CallerState.moved, Hold.entering, hstatus, hr]
    refine follows_bind.mpr (follows_startAttempt (.attempt he) (fun attemptId => ?_)
      (fun _ => trivial))
    have hs : (CallerState.moved { l with clock } dispatching).started attemptId =
        { CallerState.moved { l with clock } dispatching with
          hold := .attempted .redispatch dispatching attemptId } := by
      simp [CallerState.started, Hold.started, he]
    rw [hs]
    refine follows_bind.mpr (follows_record (follows_bind.mpr
      (follows_adapterFor (.build rfl) fun answer => ?_)))
    cases answer with
    | error _ => trivial
    | ok _ =>
      refine follows_bind.mpr ⟨.call rfl, fun answer _ => ?_⟩
      cases answer with
      | ok result => exact follows_recordRedispatch rfl
      | error exc => exact follows_recordRedispatchFailure rfl
  · exact follows_bind.mpr (follows_record (follows_release hf hk (.review (by simp [hs, routeUnknown]))))

theorem follows_recordProbe {effect : EffectRecord} {probe : ProbeReturn}
    (h : l.hold = .probed effect (.ok probe)) :
    (recordProbe effect probe).Follows callerProtocol l anyEnd := by
  have hr : l.hold.record? = some effect := by rw [h]; rfl
  -- whatever the status, the last step settles the effect, and its errors end the call
  have settle : ∀ {target data}, Settles (.probed effect (.ok probe)) target data →
      target.isHeld = false →
      (transitionAndRecord effect target data).Follows callerProtocol l anyEnd := fun hs ht =>
    follows_settle hr (h ▸ hs) ht (fun _ _ _ => trivial) (fun _ _ => trivial)
  have unknown : (Coroutine.ofExcept probe.evidence >>= fun evidence =>
      transitionAndRecord effect .manualReview
        [(text "evidence", .dict evidence), (text "reason", text "probe_unknown")]).Follows
      callerProtocol l anyEnd := by
    refine follows_bind.mpr (follows_ofExcept.mpr ?_)
    cases probe.evidence with
    | error _ => trivial
    | ok evidence => exact settle .probeUnknown rfl
  refine follows_bind.mpr (follows_ofExcept.mpr ?_)
  cases hs : probe.status with
  | error _ => trivial
  | ok status =>
    refine follows_bind.mpr (follows_record ?_)
    cases status with
    | foreign label => exact unknown
    | known status =>
      cases status with
      | committed =>
        refine follows_bind.mpr (follows_ofExcept.mpr ?_)
        cases hx : probe.externalId with
        | error _ => trivial
        | ok externalId =>
          refine follows_bind.mpr (follows_ofExcept.mpr ?_)
          cases ho : probe.output with
          | error _ => trivial
          | ok output =>
            refine follows_bind.mpr (follows_ofExcept.mpr ?_)
            cases hev : probe.evidence with
            | error _ => trivial
            | ok evidence => exact settle (.probeCommitted hs hx ho hev) rfl
      | notCommitted =>
        refine follows_bind.mpr (follows_ofExcept.mpr ?_)
        cases probe.evidence with
        | error _ => trivial
        | ok evidence => exact settle (.probeNotCommitted hs) rfl
      | unknown => exact unknown

theorem follows_probeTarget {effect : EffectRecord} (hf : l.hold = .free) (hk : effect ∈ l.known)
    (hs : routeUnknown effect.contract.safety = .reconciling) :
    (probeTarget effect).Follows callerProtocol l anyEnd := by
  refine follows_bind.mpr (follows_transitionAndRecord (.start hf hk (.reconcile hs))
    (fun reconciling hstatus => ?_) (fun _ _ => trivial))
  have hr : (l.moved reconciling).hold = .reconciling reconciling := by
    simp [CallerState.moved, Hold.entering, hstatus]
  refine follows_bind.mpr (follows_adapterFor (.buildProbe hr) fun answer => ?_)
  have hb : (l.moved reconciling).builtWith answer =
      { l.moved reconciling with hold := .probeBuilt reconciling answer } := by
    simp [CallerState.builtWith, Hold.builtWith, hr]
  rw [hb]
  cases answer with
  | error _ => trivial
  | ok _ =>
    refine follows_bind.mpr (follows_probe (.call rfl) fun answer => ?_)
    cases answer with
    | error _ => trivial
    | ok probe => exact follows_recordProbe rfl

theorem follows_reconcileOnce {effect : EffectRecord} (hf : l.hold = .free)
    (hr : l.procedure.route = .redispatch) (hk : effect ∈ l.known) :
    (reconcileOnce effect).Follows callerProtocol l anyEnd := by
  unfold reconcileOnce
  cases hs : effect.contract.safety with
  | idempotent => exact follows_redispatch hf hr hk hs
  | reconcilable => exact follows_probeTarget hf hk (by rw [hs]; rfl)
  | transactional => exact follows_probeTarget hf hk (by rw [hs]; rfl)
  | unsafeClass =>
    exact follows_bind.mpr (follows_record (follows_release hf hk
      (.review (by simp [hs, routeUnknown]))))

/-! ## The service -/

theorem follows_get {tenantId effectId : Str} {Q : CallerState → Except Exc EffectRecord → Prop}
    (hok : ∀ effect, effect.effectId = effectId → Q (l.learn [effect]) (.ok effect))
    (herror : ∀ exc, Q l (.error exc)) :
    (Broker.get tenantId effectId).Follows callerProtocol l Q := by
  refine follows_bind.mpr (follows_bind.mpr ⟨.get, fun response hp => ?_⟩)
  cases response with
  | error exc => exact herror exc
  | ok effect? =>
    cases effect? with
    | none => exact herror _
    | some effect => exact hok effect hp

theorem follows_submit {broker : Broker} {tenantId : Str} {request : EffectRequest} :
    (broker.submit tenantId request).Follows callerProtocol l anyEnd := by
  refine follows_bind.mpr (follows_ofExcept.mpr ?_)
  cases broker.contracts.get request.tool with
  | error _ => trivial
  | ok contract =>
    refine follows_bind.mpr (follows_tryCatch.mpr (follows_bind.mpr ⟨.reserve, fun response _ => ?_⟩))
    cases response with
    | ok reservation => exact follows_bind.mpr (follows_record trivial)
    | error exc =>
      cases exc with
      | payloadConflict => exact follows_bind.mpr (follows_record trivial)
      | _ => trivial

theorem follows_reconcile {broker : Broker} {tenantId effectId : Str} (hf : l.hold = .free)
    (hr : l.procedure.route = .redispatch) :
    (broker.reconcile tenantId effectId).Follows callerProtocol l anyEnd := by
  unfold Broker.reconcile
  by_cases hb : broker.hasAdapterFor
  · simp only [hb, if_true]
    refine follows_bind.mpr (follows_get (fun effect _ => ?_) (fun _ => trivial))
    exact follows_reconcileOnce hf hr (List.mem_cons_self ..)
  · simp only [hb]
    trivial

theorem follows_cancel {tenantId effectId : Str} {expectedVersion : Int} {actor reason : Str}
    (hf : l.hold = .free)
    (hp : l.procedure = .cancel tenantId effectId expectedVersion actor reason) :
    (Broker.cancel tenantId effectId expectedVersion actor reason).Follows callerProtocol l anyEnd := by
  refine follows_bind.mpr (follows_get (fun effect hid => ?_) (fun _ => trivial))
  subst hid
  simp only
  split
  · trivial
  · rename_i hv
    obtain rfl := not_not.mp hv
    split
    · trivial
    · rename_i hc
      refine follows_bind.mpr (follows_transition (.start hf (List.mem_cons_self ..)
        (.cancel hp (by simpa using hc))) (fun _ _ => ?_) (fun _ _ => trivial))
      exact follows_bind.mpr (follows_record trivial)

theorem follows_resolve {tenantId effectId : Str} {resolution : EffectStatus} {evidence : Items}
    (hf : l.hold = .free) (hp : l.procedure = .resolve tenantId effectId resolution evidence) :
    (Broker.resolve tenantId effectId resolution evidence).Follows callerProtocol l anyEnd := by
  refine follows_bind.mpr (follows_get (fun effect hid => ?_) (fun _ => trivial))
  subst hid
  simp only
  split
  · trivial
  · rename_i hm
    split
    · trivial
    · rename_i hr
      exact follows_transition (.start hf (List.mem_cons_self ..)
        (.resolve hp (not_not.mp hm) (by simpa using hr))) (fun _ _ => trivial) (fun _ _ => trivial)

end

/-- **Every procedure follows the caller protocol.** -/
theorem program_follows (procedure : Procedure) :
    procedure.program.Follows callerProtocol (callerProtocol.start procedure) anyEnd := by
  have reply : ∀ {α : Type} {p : Program α} {l : CallerState} (f : α → Reply),
      p.Follows callerProtocol l anyEnd →
      (p >>= fun value => pure (f value)).Follows callerProtocol l anyEnd := fun f h =>
    follows_bind.mpr (h.mono fun _ result _ => by cases result <;> trivial)
  cases procedure with
  | submit => exact reply _ follows_submit
  | get => exact reply _ (follows_get (fun _ _ => trivial) (fun _ => trivial))
  | reconcile => exact reply _ (follows_reconcile rfl rfl)
  | cancel => exact reply _ (follows_cancel rfl rfl)
  | resolve => exact reply _ (follows_resolve rfl rfl)
  | dispatchOnce => exact reply _ (follows_dispatchOnce rfl rfl)

end EffectBroker
