import EffectBroker.SoloRun
import EffectBroker.System

/-!
# Runs of one caller of the broker

The rules of `Always` for the requests of the broker's procedures, over any store and
any adapters.
-/
namespace EffectBroker
open Python Concurrency

section
variable {Store Target Decision : Type} {store : EffectStore Store}
  {adapters : Adapters Target Decision} {R : Rely Response (Shared Store Target)}
  {I : Surroundings Decision → Prop} {t : List (Exchange Response)} {s : Shared Store Target}

/-- A request whose exception is raised. -/
theorem always_ofExcept_request {α : Type} {r : Request} {f : Response r → Except Exc α}
    {Q : List (Exchange Response) → Shared Store Target → Except Exc α → Prop} :
    Always (broker store adapters) R I
      (Coroutine.request r >>= fun response => Coroutine.ofExcept (f response)) t s Q ↔
    ∀ middle input, R t s middle → I input →
      Q (⟨r, (serve store adapters r input middle).1⟩ :: t) (serve store adapters r input middle).2
        (f (serve store adapters r input middle).1) := by
  rw [always_bind, always_request]
  simp only [always_ofExcept]
  exact Iff.rfl

theorem always_transition {effectId : Str} {version : Int} {target : EffectStatus} {data : Items}
    {Q : List (Exchange Response) → Shared Store Target → Except Exc EffectRecord → Prop} :
    Always (broker store adapters) R I (Program.transition effectId version target data) t s Q ↔
    ∀ middle input, R t s middle → I input →
      Q (⟨.transition effectId version target data,
          (store.transition middle.store input.now effectId version target data).1⟩ :: t)
        { middle with
          store := (store.transition middle.store input.now effectId version target data).2 }
        (store.transition middle.store input.now effectId version target data).1 :=
  always_ofExcept_request

theorem always_startAttempt {effectId : Str} {version : Int} {workerId : Str}
    {Q : List (Exchange Response) → Shared Store Target → Except Exc Str → Prop} :
    Always (broker store adapters) R I (Program.startAttempt effectId version workerId) t s Q ↔
    ∀ middle input, R t s middle → I input →
      Q (⟨.startAttempt effectId version workerId,
          (store.startAttempt middle.store input.now effectId version workerId).1⟩ :: t)
        { middle with
          store := (store.startAttempt middle.store input.now effectId version workerId).2 }
        (store.startAttempt middle.store input.now effectId version workerId).1 :=
  always_ofExcept_request

theorem always_claimDue {workerId : Str} {now : Datetime} {leaseFor : Timedelta} {limit : Int}
    {Q : List (Exchange Response) → Shared Store Target → Except Exc (List EffectRecord) → Prop} :
    Always (broker store adapters) R I (Program.claimDue workerId now leaseFor limit) t s Q ↔
    ∀ middle input, R t s middle → I input →
      Q (⟨.claimDue workerId now leaseFor limit,
          (store.claimDue middle.store workerId now leaseFor limit).1⟩ :: t)
        { middle with store := (store.claimDue middle.store workerId now leaseFor limit).2 }
        (store.claimDue middle.store workerId now leaseFor limit).1 :=
  always_ofExcept_request

theorem always_get {tenantId effectId : Str}
    {Q : List (Exchange Response) → Shared Store Target → Except Exc (Option EffectRecord) → Prop} :
    Always (broker store adapters) R I (Program.get tenantId effectId) t s Q ↔
    ∀ middle input, R t s middle → I input →
      Q (⟨.get tenantId effectId, store.get middle.store tenantId effectId⟩ :: t) middle
        (store.get middle.store tenantId effectId) :=
  always_ofExcept_request

theorem always_clock
    {Q : List (Exchange Response) → Shared Store Target → Except Exc Datetime → Prop} :
    Always (broker store adapters) R I Program.clock t s Q ↔ ∀ middle input, R t s middle →
      I input → Q (⟨.clock, input.now⟩ :: t) middle (.ok input.now) := Iff.rfl

theorem always_record {metric : Metric}
    {Q : List (Exchange Response) → Shared Store Target → Except Exc Unit → Prop} :
    Always (broker store adapters) R I (Program.record metric) t s Q ↔
    ∀ middle input, R t s middle → I input →
      Q (⟨.record metric, ()⟩ :: t) { middle with metrics := middle.metrics.record metric }
        (.ok ()) := Iff.rfl

theorem always_addTime {time : Datetime} {d : Timedelta}
    {Q : List (Exchange Response) → Shared Store Target → Except Exc Datetime → Prop}
    (hok : ∀ u, time.add d = some u → Q t s (.ok u))
    (herror : time.add d = none → Q t s (.error .overflowError)) :
    Always (broker store adapters) R I (Program.addTime time d) t s Q := by
  unfold Program.addTime
  cases h : time.add d with
  | none => exact herror h
  | some u => exact hok u h

/-- The history of a run only grows. -/
theorem always_history {α : Type} (p : Program α) :
    Always (broker store adapters) R I p t s fun t' _ _ => ∀ x ∈ t, x ∈ t' := by
  induction p generalizing t s with
  | done | raised => exact fun _ hx => hx
  | await r resume ih =>
    exact fun middle input _ _ => (ih _).mono fun _ _ _ h x hx => h x (List.mem_cons_of_mem _ hx)

/-! ## The checks before a redispatch -/

section
variable {J : List (Exchange Response) → Shared Store Target → Prop}

theorem keeps_addTime {time : Datetime} {d : Timedelta} :
    Keeps (broker store adapters) R I J (Program.addTime time d) fun _ => True := by
  unfold Program.addTime
  split
  · exact keeps_pure trivial
  · exact keeps_throw

theorem keeps_recordRetentionRemaining {effect : EffectRecord}
    (hrecord : ∀ metric, Keeps (broker store adapters) R I J (Program.record metric) fun _ => True)
    (hclock : Keeps (broker store adapters) R I J Program.clock fun _ => True) :
    Keeps (broker store adapters) R I J (recordRetentionRemaining effect) fun _ => True := by
  unfold recordRetentionRemaining
  split
  · exact hrecord _
  · exact keeps_addTime.bind fun _ _ => hclock.bind fun _ _ => hrecord _

theorem keeps_keyRetentionValid {effect : EffectRecord}
    (hclock : Keeps (broker store adapters) R I J Program.clock fun _ => True) :
    Keeps (broker store adapters) R I J (keyRetentionValid effect) fun _ => True := by
  unfold keyRetentionValid
  split
  · exact keeps_pure trivial
  · exact hclock.bind fun _ _ => keeps_addTime.bind fun _ _ => keeps_pure trivial

end

/-! ## Requests about other effects -/

/-- A request that only adapters, the clock or the metrics answer. -/
def Request.isOutside : Request → Bool
  | .clock | .adapterFor _ | .dispatch .. | .probe _ | .record _ => true
  | _ => false

theorem serve_outside {r : Request} (h : r.isOutside = true) (input : Surroundings Decision)
    (s : Shared Store Target) : (serve store adapters r input s).2.store = s.store := by
  cases r <;> first | rfl | cases h

/-- A request about another effect. -/
def Request.sparing (e : Str) : Request → Prop
  | .transition effectId _ _ _ => effectId ≠ e
  | .startAttempt .. => True
  | r => r.isOutside = true

/-- A record that a transition returns is of its effect. -/
def Request.returns : (r : Request) → Response r → Prop
  | .transition effectId _ _ _, (answer : Except Exc EffectRecord) =>
    ∀ after, answer = .ok after → after.effectId = effectId
  | _, _ => True

/-- Requests about effects other than `e` keep `J`. -/
def Spares (store : EffectStore Store) (adapters : Adapters Target Decision)
    (R : Rely Response (Shared Store Target)) (I : Surroundings Decision → Prop) (e : Str)
    (J : List (Exchange Response) → Shared Store Target → Prop) : Prop :=
  ∀ r : Request, r.sparing e →
    Keeps (broker store adapters) R I J (Coroutine.request r) (r.returns ·)

section
variable {J : List (Exchange Response) → Shared Store Target → Prop} {e : Str}
  {effect : EffectRecord}

/-- A request whose answer is all that it is for. -/
theorem Spares.read {α : Type} {r : Request} {f : Response r → Except Exc α}
    (h : Spares store adapters R I e J) (hr : r.sparing e) :
    Keeps (broker store adapters) R I J
      (Coroutine.request r >>= fun response => Coroutine.ofExcept (f response)) fun _ => True :=
  (h r hr).bind fun _ _ => keeps_read

theorem Spares.record {metric : Metric} (h : Spares store adapters R I e J) :
    Keeps (broker store adapters) R I J (Program.record metric) fun _ => True :=
  (h (.record metric) rfl).mono fun _ _ => trivial

theorem Spares.transitionAndRecord {target : EffectStatus} {data : Items}
    (h : Spares store adapters R I e J) (he : effect.effectId ≠ e) :
    Keeps (broker store adapters) R I J (transitionAndRecord effect target data)
      fun after => after.effectId = effect.effectId := by
  refine Keeps.bind (P := fun after => after.effectId = effect.effectId)
    (Keeps.tryCatch ?_ fun exc => ?_) fun after hafter => ?_
  · refine (h (.transition _ _ _ _) he).bind fun response hreturns => ?_
    exact keeps_ofExcept hreturns
  · split
    · exact h.record.bind fun _ _ => keeps_throw
    · exact keeps_throw
  · exact h.record.bind fun _ _ => keeps_pure hafter

theorem Spares.move {target : EffectStatus} {data : Items}
    (h : Spares store adapters R I e J) (he : effect.effectId ≠ e) :
    Keeps (broker store adapters) R I J (EffectBroker.transitionAndRecord effect target data)
      fun _ => True :=
  (h.transitionAndRecord he).mono fun _ _ => trivial

theorem Spares.transitionCommitted {attemptId : Str} {result : DispatchReturn}
    (h : Spares store adapters R I e J) (he : effect.effectId ≠ e) :
    Keeps (broker store adapters) R I J (transitionCommitted effect attemptId result)
      fun _ => True :=
  keeps_read.bind fun _ _ => keeps_read.bind fun _ _ => h.move he

/-- The loop body of the worker, for another effect. -/
theorem Spares.dispatchEffect {workerId : Str} (h : Spares store adapters R I e J)
    (he : effect.effectId ≠ e) :
    Keeps (broker store adapters) R I J (dispatchEffect workerId effect) fun _ => True := by
  refine (h.transitionAndRecord he).bind fun dispatching hdispatching => ?_
  rw [← hdispatching] at he
  refine (h.read (r := .startAttempt ..) trivial).bind fun attemptId _ => ?_
  refine h.record.bind fun _ _ => Keeps.tryCatch ?_ fun exc => ?_
  · refine (h.read (r := .adapterFor _) rfl).bind fun _ _ => ?_
    refine (h.read (r := .dispatch ..) rfl).bind fun _ _ => ?_
    refine keeps_read.bind fun committed _ => ?_
    split
    · exact h.transitionCommitted he
    · exact h.move he
  · unfold recordFailure transitionProvenNonCommit
    split
    · exact h.move he
    · exact h.move he

/-- The branch of the reconciler that redispatches, for another effect. -/
theorem Spares.redispatch (h : Spares store adapters R I e J) (he : effect.effectId ≠ e) :
    Keeps (broker store adapters) R I J (redispatch effect) fun _ => True := by
  have hclock : Keeps (broker store adapters) R I J Program.clock fun _ => True :=
    (h .clock rfl).mono fun _ _ => trivial
  refine (keeps_recordRetentionRemaining (fun _ => h.record) hclock).bind fun _ _ => ?_
  refine (keeps_keyRetentionValid hclock).bind fun valid _ => ?_
  split
  · refine (h.transitionAndRecord he).bind fun dispatching hdispatching => ?_
    rw [← hdispatching] at he
    refine (h.read (r := .startAttempt ..) trivial).bind fun attemptId _ => ?_
    refine h.record.bind fun _ _ => (h.read (r := .adapterFor _) rfl).bind fun _ _ => ?_
    refine (h (.dispatch ..) rfl).bind fun answer _ => ?_
    cases answer with
    | ok result =>
      refine keeps_read.bind fun committed _ => ?_
      split
      · exact h.record.bind fun _ _ => h.transitionCommitted he
      · exact h.record.bind fun _ _ => h.move he
    | error exc =>
      show Keeps _ _ _ _ (recordRedispatchFailure dispatching attemptId exc) _
      unfold recordRedispatchFailure
      split
      · exact h.record.bind fun _ _ => h.move he
      · exact h.record.bind fun _ _ => h.move he
  · exact h.record.bind fun _ _ => h.move he

/-- The branch of the reconciler that probes, for another effect. -/
theorem Spares.probeTarget (h : Spares store adapters R I e J) (he : effect.effectId ≠ e) :
    Keeps (broker store adapters) R I J (probeTarget effect) fun _ => True := by
  refine (h.transitionAndRecord he).bind fun reconciling hreconciling => ?_
  rw [← hreconciling] at he
  refine (h.read (r := .adapterFor _) rfl).bind fun _ _ => ?_
  refine (h.read (r := .probe _) rfl).bind fun probe _ => ?_
  refine keeps_read.bind fun status _ => h.record.bind fun _ _ => ?_
  split
  · exact keeps_read.bind fun _ _ => keeps_read.bind fun _ _ => keeps_read.bind fun _ _ => h.move he
  · exact keeps_read.bind fun _ _ => h.move he
  · exact keeps_read.bind fun _ _ => h.move he

/-- A reconciliation of another effect. -/
theorem Spares.reconcileOnce (h : Spares store adapters R I e J) (he : effect.effectId ≠ e) :
    Keeps (broker store adapters) R I J (reconcileOnce effect) fun _ => True := by
  unfold EffectBroker.reconcileOnce
  split
  · exact h.redispatch he
  · exact h.probeTarget he
  · exact h.record.bind fun _ _ => h.move he

end
end
end EffectBroker
