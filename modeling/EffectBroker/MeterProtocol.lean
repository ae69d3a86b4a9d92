import EffectBroker.Conformance
import EffectBroker.ProtocolPairs

/-!
# When the procedures record what they do

Counters and gauges are updated by hand next to each change of the store.  This protocol
says when: what a reservation or a move made due is recorded next, before any other
request, by every procedure but `resolve`, which records no move.
-/
namespace EffectBroker
open Python Concurrency Coroutine

/-- What a caller has done to the store and not recorded yet. -/
inductive Due where
  | nothing
  | submitted (reservation : Reservation)
  | moved (effectId : Str) (version : Int) (after : EffectRecord)

/-- A caller: its procedure, the records it has read, and what it has to record. -/
structure MeterState where
  procedure : Procedure
  known : List EffectRecord := []
  due : Due := .nothing

/-- Whether a procedure records the transitions that it makes. -/
def Procedure.recordsMoves : Procedure → Bool
  | .resolve .. => false
  | _ => true

/-- A request that neither changes the status of an effect nor records a change. -/
def Request.isPlain : Request → Bool
  | .reserve .. | .transition .. | .record (.submit _) | .record (.transition ..) => false
  | _ => true

/-- What a caller may await, with what it has to record. -/
inductive MeterAllowed (l : MeterState) : Request → Prop where
  | submit {reservation} : l.due = .submitted reservation →
      MeterAllowed l (.record (.submit reservation))
  | recordMove {before after} : l.due = .moved before.effectId before.version after →
      before ∈ l.known → MeterAllowed l (.record (.transition before after))
  | plain {r} : l.due = .nothing → r.isPlain → MeterAllowed l r
  | reserve {tenantId request contract} : l.due = .nothing →
      MeterAllowed l (.reserve tenantId request contract)
  | move {effectId version target data} : l.due = .nothing → l.procedure.recordsMoves →
      MeterAllowed l (.transition effectId version target data)
  | resolve {effect target data} : l.due = .nothing → effect ∈ l.known →
      effect.status = .manualReview → Broker.isResolution target →
      MeterAllowed l (.transition effect.effectId effect.version target data)

/-- What a response makes of what is due. -/
def Due.after (recordsMoves : Bool) (due : Due) : (r : Request) → Response r → Due
  | .reserve .., (.ok reservation : Except Exc Reservation) => .submitted reservation
  | .transition effectId version _ _, (.ok after : Except Exc EffectRecord) =>
    if recordsMoves then .moved effectId version after else .nothing
  | .record _, _ => .nothing
  | _, _ => due

/-- What a response makes of the caller. -/
def MeterState.after (l : MeterState) (r : Request) (response : Response r) : MeterState where
  procedure := l.procedure
  known := returned r response ++ l.known
  due := l.due.after l.procedure.recordsMoves r response

/-- The protocol. -/
def meterProtocol : Protocol Response Procedure MeterState where
  start procedure := { procedure }
  Allowed := MeterAllowed
  Possible _ _ := True
  after := MeterState.after

/-! ## Programs that record what they do -/

/-- The caller has nothing to record, and it knows what it knew. -/
structure Later (l l' : MeterState) : Prop where
  due : l'.due = .nothing
  procedure : l'.procedure = l.procedure
  known : l.known ⊆ l'.known

theorem Later.trans {l l' l'' : MeterState} (h : Later l l') (h' : Later l' l'') : Later l l'' :=
  ⟨h'.due, h'.procedure.trans h.procedure, List.Subset.trans h.known h'.known⟩

/-- A program that records all it does, with what holds of its result. -/
def Meters {α : Type} (p : Program α) (l : MeterState) (R : MeterState → α → Prop) : Prop :=
  l.due = .nothing → p.Follows meterProtocol l fun l' result =>
    Later l l' ∧ ∀ a, result = .ok a → R l' a

section
variable {α β : Type} {p : Program α} {l : MeterState} {R : MeterState → α → Prop}

theorem Meters.bind {f : α → Program β} {R' : MeterState → β → Prop} (h : Meters p l R)
    (hnext : ∀ l' a, Later l l' → R l' a → Meters (f a) l' R') : Meters (p >>= f) l R' := by
  intro hdue
  refine follows_bind.mpr ((h hdue).mono fun l' result hp => ?_)
  obtain ⟨hlater, hresult⟩ := hp
  cases result with
  | ok a =>
    refine (hnext l' a hlater (hresult a rfl) hlater.due).mono fun l'' _ hq => ?_
    exact ⟨hlater.trans hq.1, hq.2⟩
  | error exc => exact ⟨hlater, fun _ h => nomatch h⟩

theorem Meters.tryCatch {handler : Exc → Program α} (h : Meters p l R)
    (hhandler : ∀ l' exc, Later l l' → Meters (handler exc) l' R) :
    Meters (MonadExcept.tryCatch p handler) l R := by
  intro hdue
  refine follows_tryCatch.mpr ((h hdue).mono fun l' result hp => ?_)
  obtain ⟨hlater, hresult⟩ := hp
  cases result with
  | ok a => exact ⟨hlater, hresult⟩
  | error exc =>
    refine (hhandler l' exc hlater hlater.due).mono fun l'' _ hq => ?_
    exact ⟨hlater.trans hq.1, hq.2⟩

theorem Meters.mono {R' : MeterState → α → Prop} (h : Meters p l R)
    (himp : ∀ l' a, R l' a → R' l' a) : Meters p l R' := fun hdue =>
  (h hdue).mono fun l' _ hp => ⟨hp.1, fun a ha => himp l' a (hp.2 a ha)⟩

theorem meters_pure {a : α} (h : R l a) : Meters (pure a) l R := by
  intro hdue
  refine ⟨⟨hdue, rfl, List.Subset.refl _⟩, fun b hb => ?_⟩
  cases hb
  exact h

theorem meters_throw {exc : Exc} : Meters (throw exc : Program α) l R := fun hdue =>
  ⟨⟨hdue, rfl, List.Subset.refl _⟩, fun _ h => nomatch h⟩

theorem meters_ofExcept {result : Except Exc α} (h : ∀ a, result = .ok a → R l a) :
    Meters (Coroutine.ofExcept result) l R := by
  intro hdue
  exact follows_ofExcept.mpr ⟨⟨hdue, rfl, List.Subset.refl _⟩, h⟩

/-- A plain request makes nothing due. -/
theorem meters_request {r : Request} (h : r.isPlain = true) :
    Meters (Coroutine.request r) l fun l' response => returned r response ⊆ l'.known := by
  intro hdue
  refine ⟨.plain hdue h, fun response _ => ⟨⟨?_, rfl, List.subset_append_right _ _⟩, ?_⟩⟩
  · show l.due.after _ r response = .nothing
    rw [hdue]
    cases r with
    | reserve | transition => cases h
    | record | claimDue | startAttempt | get | clock | adapterFor | dispatch | probe => rfl
  · intro response' hresponse
    cases hresponse
    exact List.subset_append_left _ _

theorem meters_plain {r : Request} {f : Response r → Except Exc α} (h : r.isPlain = true)
    (hR : ∀ l' a response, f response = .ok a → returned r response ⊆ l'.known → R l' a) :
    Meters (do Coroutine.ofExcept (f (← Coroutine.request r))) l R :=
  (meters_request h).bind fun l' response _ hknown =>
    meters_ofExcept fun a ha => hR l' a response ha hknown

end

section
variable {l : MeterState}

/-- The program records all it does. -/
abbrev Recorded {α : Type} (p : Program α) (l : MeterState) : Prop := Meters p l fun _ _ => True

theorem recorded_record {metric : Metric} (h : (Request.record metric).isPlain = true) :
    Recorded (Program.record metric) l :=
  (meters_request h).mono fun _ _ _ => trivial

theorem recorded_clock : Recorded Program.clock l :=
  Meters.mono (p := Program.clock) (meters_request rfl) fun _ _ _ => trivial

theorem recorded_addTime {t : Datetime} {d : Timedelta} : Recorded (Program.addTime t d) l := by
  unfold Program.addTime
  cases t.add d with
  | none => exact meters_throw
  | some u => exact meters_pure trivial

/-- A procedure that records its moves is given the record after the move. -/
theorem meters_transitionAndRecord {before : EffectRecord} {target : EffectStatus} {data : Items}
    (hbefore : before ∈ l.known) (hrecords : l.procedure.recordsMoves = true) :
    Meters (transitionAndRecord before target data) l fun l' after => after ∈ l'.known := by
  intro hdue
  refine follows_bind.mpr (follows_tryCatch.mpr ⟨.move hdue hrecords, fun response _ => ?_⟩)
  cases response with
  | ok after =>
    have hmoved : (l.after (.transition before.effectId before.version target data) (.ok after)).due =
        .moved before.effectId before.version after := if_pos hrecords
    refine follows_bind.mpr ⟨.recordMove hmoved (List.mem_cons_of_mem _ hbefore), fun _ _ => ?_⟩
    refine ⟨⟨rfl, rfl, List.subset_cons_self _ _⟩, fun a ha => ?_⟩
    cases ha
    exact List.mem_cons_self ..
  | error exc =>
    show Coroutine.Follows _ (if exc.isVersionConflict = true then _ else _) _ _
    by_cases hv : exc.isVersionConflict = true
    · rw [if_pos hv]
      exact follows_bind.mpr ⟨.plain hdue rfl, fun _ _ =>
        ⟨⟨rfl, rfl, List.Subset.refl _⟩, fun _ h => nomatch h⟩⟩
    · rw [if_neg hv]
      exact ⟨⟨hdue, rfl, List.Subset.refl _⟩, fun _ h => nomatch h⟩

/-- The move of an effect that is the end of a procedure. -/
theorem recorded_move {before : EffectRecord} {target : EffectStatus} {data : Items}
    (hbefore : before ∈ l.known) (hrecords : l.procedure.recordsMoves = true) :
    Recorded (transitionAndRecord before target data) l :=
  (meters_transitionAndRecord hbefore hrecords).mono fun _ _ _ => trivial

/-! ## The worker -/

theorem recorded_transitionCommitted {effect : EffectRecord} {attemptId : Str}
    {result : DispatchReturn} (heffect : effect ∈ l.known)
    (hrecords : l.procedure.recordsMoves = true) :
    Recorded (transitionCommitted effect attemptId result) l := by
  refine (meters_ofExcept fun _ _ => trivial).bind (R := fun _ _ => True) fun l₁ _ h₁ _ => ?_
  refine (meters_ofExcept fun _ _ => trivial).bind (R := fun _ _ => True) fun l₂ _ h₂ _ => ?_
  have h := h₁.trans h₂
  exact recorded_move (h.known heffect) (h.procedure ▸ hrecords)

theorem recorded_callAndRecord {effect : EffectRecord} {attemptId : Str} (heffect : effect ∈ l.known)
    (hrecords : l.procedure.recordsMoves = true) : Recorded (callAndRecord effect attemptId) l := by
  refine (meters_plain (R := fun _ _ => True) rfl fun _ _ _ _ _ => trivial).bind fun l₁ _ h₁ _ => ?_
  refine (meters_plain (R := fun _ _ => True) rfl fun _ _ _ _ _ => trivial).bind fun l₂ _ h₂ _ => ?_
  refine (meters_ofExcept fun _ _ => trivial).bind (R := fun _ _ => True) fun l₃ committed h₃ _ => ?_
  have h := (h₁.trans h₂).trans h₃
  have hknown := h.known heffect
  have hprocedure : l₃.procedure.recordsMoves = true := h.procedure ▸ hrecords
  cases committed with
  | true => exact recorded_transitionCommitted hknown hprocedure
  | false => exact recorded_move hknown hprocedure

theorem recorded_recordFailure {effect : EffectRecord} {attemptId : Str} {exc : Exc}
    (heffect : effect ∈ l.known) (hrecords : l.procedure.recordsMoves = true) :
    Recorded (recordFailure effect attemptId exc) l := by
  unfold recordFailure transitionProvenNonCommit
  split
  · exact recorded_move heffect hrecords
  · exact recorded_move heffect hrecords

theorem recorded_dispatchEffect {workerId : Str} {effect : EffectRecord} (heffect : effect ∈ l.known)
    (hrecords : l.procedure.recordsMoves = true) : Recorded (dispatchEffect workerId effect) l := by
  refine (meters_transitionAndRecord heffect hrecords).bind fun l₁ dispatching h₁ hdispatching => ?_
  refine (meters_plain (R := fun _ _ => True) rfl fun _ _ _ _ _ => trivial).bind fun l₂ _ h₂ _ => ?_
  refine (recorded_record rfl).bind fun l₃ _ h₃ _ => ?_
  have h := h₁.trans (h₂.trans h₃)
  have hknown := (h₂.trans h₃).known hdispatching
  have hprocedure : l₃.procedure.recordsMoves = true := h.procedure ▸ hrecords
  refine (recorded_callAndRecord hknown hprocedure).tryCatch fun l₄ exc h₄ => ?_
  exact recorded_recordFailure (h₄.known hknown) (h₄.procedure ▸ hprocedure)

theorem recorded_dispatchAll {workerId : Str} {claimed : List EffectRecord} (h : claimed ⊆ l.known)
    (hrecords : l.procedure.recordsMoves = true) : Recorded (dispatchAll workerId claimed) l := by
  induction claimed generalizing l with
  | nil => exact meters_pure trivial
  | cons effect claimed ih =>
    refine (recorded_dispatchEffect (h (List.mem_cons_self ..)) hrecords).bind fun l₁ _ h₁ _ => ?_
    have hrest : claimed ⊆ l₁.known := fun e he => h₁.known (h (List.mem_cons_of_mem _ he))
    refine (ih hrest (h₁.procedure ▸ hrecords)).bind fun l₂ _ _ _ => ?_
    exact meters_pure trivial

theorem recorded_dispatchOnce {workerId : Str} {now : Datetime} {leaseFor : Timedelta} {limit : Int}
    (hrecords : l.procedure.recordsMoves = true) :
    Recorded (dispatchOnce workerId now leaseFor limit) l := by
  refine Meters.bind (R := fun l' claimed => claimed ⊆ l'.known) ?_ fun l₁ claimed h₁ hclaimed => ?_
  · refine meters_plain rfl fun l' claimed response hresponse hknown => ?_
    have hok : response = .ok claimed := hresponse
    rw [hok] at hknown
    exact hknown
  · exact recorded_dispatchAll hclaimed (h₁.procedure ▸ hrecords)

/-! ## The reconciler -/

theorem recorded_recordRetentionRemaining {effect : EffectRecord} :
    Recorded (recordRetentionRemaining effect) l := by
  unfold recordRetentionRemaining
  cases effect.contract.keyRetention with
  | none => exact recorded_record rfl
  | some retention =>
    refine recorded_addTime.bind fun l₁ _ _ _ => ?_
    refine recorded_clock.bind fun l₂ _ _ _ => ?_
    exact recorded_record rfl

theorem recorded_keyRetentionValid {effect : EffectRecord} :
    Recorded (keyRetentionValid effect) l := by
  unfold keyRetentionValid
  cases effect.contract.keyRetention with
  | none => exact meters_pure trivial
  | some retention =>
    refine recorded_clock.bind fun l₁ _ _ _ => ?_
    refine recorded_addTime.bind fun l₂ _ _ _ => ?_
    exact meters_pure trivial

/-- An outcome of reconciliation is recorded, and the effect is moved. -/
theorem recorded_outcomeMove {outcome : Str} {effect : EffectRecord} {target : EffectStatus}
    {data : Items} (heffect : effect ∈ l.known) (hrecords : l.procedure.recordsMoves = true) :
    Recorded (do recordOutcome outcome; transitionAndRecord effect target data) l := by
  refine (recorded_record rfl).bind fun l₁ _ h₁ _ => ?_
  exact recorded_move (h₁.known heffect) (h₁.procedure ▸ hrecords)

theorem recorded_recordRedispatch {effect : EffectRecord} {attemptId : Str} {result : DispatchReturn}
    (heffect : effect ∈ l.known) (hrecords : l.procedure.recordsMoves = true) :
    Recorded (recordRedispatch effect attemptId result) l := by
  refine (meters_ofExcept fun _ _ => trivial).bind (R := fun _ _ => True) fun l₁ committed h₁ _ => ?_
  have hknown := h₁.known heffect
  have hprocedure : l₁.procedure.recordsMoves = true := h₁.procedure ▸ hrecords
  cases committed with
  | true =>
    refine (recorded_record rfl).bind fun l₂ _ h₂ _ => ?_
    exact recorded_transitionCommitted (h₂.known hknown) (h₂.procedure ▸ hprocedure)
  | false => exact recorded_outcomeMove hknown hprocedure

theorem recorded_recordRedispatchFailure {effect : EffectRecord} {attemptId : Str} {exc : Exc}
    (heffect : effect ∈ l.known) (hrecords : l.procedure.recordsMoves = true) :
    Recorded (recordRedispatchFailure effect attemptId exc) l := by
  unfold recordRedispatchFailure
  split
  · exact recorded_outcomeMove heffect hrecords
  · exact recorded_outcomeMove heffect hrecords

theorem recorded_redispatch {effect : EffectRecord} (heffect : effect ∈ l.known)
    (hrecords : l.procedure.recordsMoves = true) : Recorded (redispatch effect) l := by
  refine recorded_recordRetentionRemaining.bind fun l₁ _ h₁ _ => ?_
  refine recorded_keyRetentionValid.bind fun l₂ valid h₂ _ => ?_
  have h := h₁.trans h₂
  have hknown := h.known heffect
  have hprocedure : l₂.procedure.recordsMoves = true := h.procedure ▸ hrecords
  cases valid with
  | false => exact recorded_outcomeMove hknown hprocedure
  | true =>
    refine (meters_transitionAndRecord hknown hprocedure).bind
      fun l₃ dispatching h₃ hdispatching => ?_
    refine (meters_plain (R := fun _ _ => True) rfl fun _ _ _ _ _ => trivial).bind
      fun l₄ _ h₄ _ => ?_
    refine (recorded_record rfl).bind fun l₅ _ h₅ _ => ?_
    refine (meters_plain (R := fun _ _ => True) rfl fun _ _ _ _ _ => trivial).bind
      fun l₆ _ h₆ _ => ?_
    refine (meters_request rfl).bind fun l₇ answer h₇ _ => ?_
    have hlater := h₄.trans (h₅.trans (h₆.trans h₇))
    have hknown := hlater.known hdispatching
    have hprocedure : l₇.procedure.recordsMoves = true :=
      (h₃.trans hlater).procedure ▸ hprocedure
    cases answer with
    | ok result => exact recorded_recordRedispatch hknown hprocedure
    | error exc => exact recorded_recordRedispatchFailure hknown hprocedure

theorem recorded_recordProbe {effect : EffectRecord} {probe : ProbeReturn} (heffect : effect ∈ l.known)
    (hrecords : l.procedure.recordsMoves = true) : Recorded (recordProbe effect probe) l := by
  -- what is read of the probe changes nothing, and then the effect is moved
  have evidence : ∀ {l' : MeterState} {target : EffectStatus} {data : Items → Items}, Later l l' →
      Recorded (do let evidence ← Coroutine.ofExcept probe.evidence
                   transitionAndRecord effect target (data evidence)) l' := by
    intro l' target data h'
    refine (meters_ofExcept fun _ _ => trivial).bind (R := fun _ _ => True) fun l₁ _ h₁ _ => ?_
    have h := h'.trans h₁
    exact recorded_move (h.known heffect) (h.procedure ▸ hrecords)
  refine (meters_ofExcept fun _ _ => trivial).bind (R := fun _ _ => True) fun l₁ status h₁ _ => ?_
  refine (recorded_record rfl).bind fun l₂ _ h₂ _ => ?_
  have h := h₁.trans h₂
  cases status with
  | foreign label => exact evidence h
  | known status =>
    cases status with
    | committed =>
      refine (meters_ofExcept fun _ _ => trivial).bind (R := fun _ _ => True) fun l₃ _ h₃ _ => ?_
      refine (meters_ofExcept fun _ _ => trivial).bind (R := fun _ _ => True) fun l₄ _ h₄ _ => ?_
      exact evidence (h.trans (h₃.trans h₄))
    | notCommitted => exact evidence h
    | unknown => exact evidence h

theorem recorded_reconcileOnce {effect : EffectRecord} (heffect : effect ∈ l.known)
    (hrecords : l.procedure.recordsMoves = true) : Recorded (reconcileOnce effect) l := by
  unfold reconcileOnce
  split
  · exact recorded_redispatch heffect hrecords
  · refine (meters_transitionAndRecord heffect hrecords).bind
      fun l₁ reconciling h₁ hreconciling => ?_
    refine (meters_plain (R := fun _ _ => True) rfl fun _ _ _ _ _ => trivial).bind
      fun l₂ _ h₂ _ => ?_
    refine (meters_plain (R := fun _ _ => True) rfl fun _ _ _ _ _ => trivial).bind
      fun l₃ _ h₃ _ => ?_
    have hlater := h₂.trans h₃
    exact recorded_recordProbe (hlater.known hreconciling) ((h₁.trans hlater).procedure ▸ hrecords)
  · exact recorded_outcomeMove heffect hrecords

/-! ## The service -/

theorem recorded_submit {broker : Broker} {tenantId : Str} {request : EffectRequest} :
    Recorded (broker.submit tenantId request) l := by
  refine (meters_ofExcept fun _ _ => trivial).bind (R := fun _ _ => True) fun l₁ contract _ _ => ?_
  intro hdue
  refine follows_bind.mpr (follows_tryCatch.mpr ⟨.reserve hdue, fun response _ => ?_⟩)
  cases response with
  | ok reservation =>
    refine follows_bind.mpr ⟨.submit rfl, fun _ _ => ?_⟩
    exact ⟨⟨rfl, rfl, List.subset_cons_self _ _⟩, fun _ _ => trivial⟩
  | error exc =>
    cases exc with
    | payloadConflict operationKey found given =>
      exact follows_bind.mpr ⟨.plain hdue rfl, fun _ _ =>
        ⟨⟨rfl, rfl, List.Subset.refl _⟩, fun _ h => nomatch h⟩⟩
    | _ => exact ⟨⟨hdue, rfl, List.Subset.refl _⟩, fun _ h => nomatch h⟩

theorem meters_get {tenantId effectId : Str} :
    Meters (Broker.get tenantId effectId) l fun l' effect => effect ∈ l'.known := by
  refine Meters.bind (R := fun l' found => ∀ effect, found = some effect → effect ∈ l'.known) ?_
    fun l₁ found _ hfound => ?_
  · refine meters_plain rfl fun l' found response hresponse hknown effect heffect => ?_
    have hok : response = .ok (some effect) := heffect ▸ hresponse
    rw [hok] at hknown
    exact hknown (List.mem_singleton_self effect)
  · cases found with
    | none => exact meters_throw
    | some effect => exact meters_pure (hfound effect rfl)

theorem recorded_reconcile {broker : Broker} {tenantId effectId : Str}
    (hrecords : l.procedure.recordsMoves = true) :
    Recorded (broker.reconcile tenantId effectId) l := by
  unfold Broker.reconcile
  split
  · refine meters_get.bind fun l₁ effect h₁ heffect => ?_
    exact recorded_reconcileOnce heffect (h₁.procedure ▸ hrecords)
  · exact meters_throw

theorem recorded_cancel {tenantId effectId : Str} {expectedVersion : Int} {actor reason : Str}
    (hrecords : l.procedure.recordsMoves = true) :
    Recorded (Broker.cancel tenantId effectId expectedVersion actor reason) l := by
  refine meters_get.bind fun l₁ effect h₁ heffect => ?_
  by_cases hversion : (effect.version : Int) ≠ expectedVersion
  · rw [if_pos hversion]
    exact meters_throw
  · rw [if_neg hversion]
    have hsame : (effect.version : Int) = expectedVersion := not_not.mp hversion
    split
    · exact meters_throw
    · intro hdue
      have hrecords' : l₁.procedure.recordsMoves = true := h₁.procedure ▸ hrecords
      refine follows_bind.mpr ⟨.move hdue hrecords', fun response _ => ?_⟩
      cases response with
      | error exc => exact ⟨⟨hdue, rfl, List.Subset.refl _⟩, fun _ h => nomatch h⟩
      | ok cancelled =>
        have hmoved : (l₁.after (.transition effect.effectId expectedVersion .cancelled
            [(text "actor", .str actor), (text "reason", .str reason)]) (.ok cancelled)).due =
            .moved effect.effectId effect.version cancelled := by
          rw [hsame]
          exact if_pos hrecords'
        refine follows_bind.mpr ⟨.recordMove hmoved (List.mem_cons_of_mem _ heffect), fun _ _ => ?_⟩
        exact ⟨⟨rfl, rfl, List.subset_cons_self _ _⟩, fun _ _ => trivial⟩

theorem recorded_resolve {tenantId effectId : Str} {resolution : EffectStatus} {evidence : Items}
    (hrecords : l.procedure.recordsMoves = false) :
    Recorded (Broker.resolve tenantId effectId resolution evidence) l := by
  refine meters_get.bind fun l₁ effect h₁ heffect => ?_
  by_cases hreview : effect.status ≠ .manualReview
  · rw [if_pos hreview]
    exact meters_throw
  · rw [if_neg hreview]
    by_cases hresolution : Broker.isResolution resolution = true
    · have hnot : (!Broker.isResolution resolution) ≠ true := by simp [hresolution]
      rw [if_neg hnot]
      intro hdue
      refine ⟨.resolve hdue heffect (not_not.mp hreview) hresolution, fun response _ => ?_⟩
      have hsilent : l₁.procedure.recordsMoves = false := h₁.procedure ▸ hrecords
      cases response with
      | error exc => exact ⟨⟨hdue, rfl, List.Subset.refl _⟩, fun _ _ => trivial⟩
      | ok moved =>
        refine ⟨⟨?_, rfl, List.subset_cons_self _ _⟩, fun _ _ => trivial⟩
        show (if l₁.procedure.recordsMoves = true then _ else Due.nothing) = .nothing
        rw [hsilent]
        rfl
    · have hnot : (!Broker.isResolution resolution) = true := by simpa using hresolution
      rw [if_pos hnot]
      exact meters_throw

/-- **Every procedure records what it does.** -/
theorem program_meters (procedure : Procedure) :
    procedure.program.Follows meterProtocol (meterProtocol.start procedure) fun l _ =>
      l.due = .nothing := by
  have hrecorded : Recorded procedure.program (meterProtocol.start procedure) := by
    cases procedure with
    | submit broker tenantId request =>
      exact recorded_submit.bind fun _ _ _ _ => meters_pure trivial
    | get tenantId effectId => exact meters_get.bind fun _ _ _ _ => meters_pure trivial
    | reconcile broker tenantId effectId =>
      exact (recorded_reconcile rfl).bind fun _ _ _ _ => meters_pure trivial
    | cancel tenantId effectId expectedVersion actor reason =>
      exact (recorded_cancel rfl).bind fun _ _ _ _ => meters_pure trivial
    | resolve tenantId effectId resolution evidence =>
      exact (recorded_resolve rfl).bind fun _ _ _ _ => meters_pure trivial
    | dispatchOnce workerId now leaseFor limit =>
      exact (recorded_dispatchOnce rfl).bind fun _ _ _ _ => meters_pure trivial
  exact (hrecorded rfl).mono fun _ _ h => h.1.due

end
end EffectBroker
