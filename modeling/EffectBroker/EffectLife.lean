import EffectBroker.CallerProtocol

/-!
# The life of one effect

An abstract model of what the broker is for: one effect is unborn, at rest in the
ledger, or held by exactly one caller that is dispatching or probing it.  `Life` says
which moments may follow one another, whoever the callers are and however they
interleave; claims about single effects are properties of lives.
-/
namespace EffectBroker
open Python Concurrency

/-- A caller that moves an effect, with its procedure and its last reading of the
clock. -/
structure Mover where
  caller : Nat
  procedure : Option Procedure
  clock : Option Datetime

/-- A moment in the life of an effect. -/
inductive Moment where
  | reserved (effect : EffectRecord)
  | moved (mover : Mover) (after : EffectRecord) (data : Items)
  | attempted (caller : Nat) (version : Int) (attemptId : Str)
  | built (caller : Nat) (answer : Except Exc Unit)
  | began (caller : Nat) (attemptId : Str)
  | landed (caller : Nat) (attemptId : Str)
  | dispatched (caller : Nat) (attemptId : Str) (answer : Except Exc DispatchReturn)
  | probeBegan (caller : Nat)
  | probed (caller : Nat) (answer : Except Exc ProbeReturn)

/-- Where an effect is: at rest, or held by a caller whose external call may be
outstanding. -/
inductive Phase where
  | unborn
  | resting (effect : EffectRecord)
  | held (caller : Nat) (hold : Hold) (calling : Bool)

namespace Phase

/-- The record of the ledger. -/
def record? : Phase → Option EffectRecord
  | unborn => none
  | resting effect => some effect
  | held _ hold _ => hold.record?

/-- Where a caller that holds nothing leaves the effect it has moved. -/
def entering (caller : Nat) (route : Route) (after : EffectRecord) : Phase :=
  match Hold.entering route after with
  | .free => resting after
  | hold => held caller hold false

end Phase

/-- The attempts started so far. -/
def attemptsIn (moments : List Moment) : Nat :=
  moments.countP fun
    | .attempted .. => true
    | _ => false

theorem attemptsIn_attempted {caller : Nat} {version : Int} {attemptId : Str} {ms : List Moment} :
    attemptsIn (.attempted caller version attemptId :: ms) = attemptsIn ms + 1 :=
  List.countP_cons_of_pos rfl

/-- The attempts started so far, newest first: ordinal, version and attempt id. -/
def attemptRows : List Moment → List (Nat × Int × Str)
  | [] => []
  | .attempted _ version attemptId :: ms =>
    (attemptsIn ms + 1, version, attemptId) :: attemptRows ms
  | _ :: ms => attemptRows ms

theorem length_attemptRows (ms : List Moment) : (attemptRows ms).length = attemptsIn ms := by
  induction ms with
  | nil => rfl
  | cons m ms ih =>
    cases m with
    | attempted => rw [attemptRows, List.length_cons, ih, attemptsIn_attempted]
    | _ => exact ih

/-- The lives of the effect `e`: its moments, newest first, and where they have led. -/
inductive Life (e : Str) : List Moment → Phase → Prop
  | unborn : Life e [] .unborn
  | reserved {effect : EffectRecord} : effect.effectId = e → effect.status = .prepared →
      effect.version = 0 → Life e [.reserved effect] (.resting effect)
  /-- A claim leaves no moment: a claim that overflows later on is not answered. -/
  | claimed {ms effect} (now : Datetime) : Life e ms (.resting effect) →
      effect.status.isClaimable → Life e ms (.resting (claimedRecord effect now))
  | started {ms effect procedure clock target data} (caller : Nat) (now : Datetime) :
      Life e ms (.resting effect) → Starts procedure clock effect target data →
      isAllowed effect.status target →
      Life e (.moved ⟨caller, some procedure, clock⟩ (movedRecord effect target now) data :: ms)
        (.entering caller procedure.route (movedRecord effect target now))
  | attempted {ms caller route effect} : Life e ms (.held caller (.entered route effect) false) →
      Life e (.attempted caller effect.version (attemptIdOf e (attemptsIn ms + 1)) :: ms)
        (.held caller (.attempted route effect (attemptIdOf e (attemptsIn ms + 1))) false)
  | built {ms caller route effect attemptId} (answer : Except Exc Unit) :
      Life e ms (.held caller (.attempted route effect attemptId) false) →
      Life e (.built caller answer :: ms) (.held caller (.built route effect attemptId answer) false)
  | began {ms caller route effect attemptId} :
      Life e ms (.held caller (.built route effect attemptId (.ok ())) false) →
      Life e (.began caller attemptId :: ms)
        (.held caller (.built route effect attemptId (.ok ())) true)
  | landed {ms caller route effect attemptId} :
      Life e ms (.held caller (.built route effect attemptId (.ok ())) true) →
      Life e (.landed caller attemptId :: ms)
        (.held caller (.built route effect attemptId (.ok ())) true)
  | dispatched {ms caller route effect attemptId} (answer : Except Exc DispatchReturn) :
      Life e ms (.held caller (.built route effect attemptId (.ok ())) true) →
      Life e (.dispatched caller attemptId answer :: ms)
        (.held caller (.dispatched route effect attemptId answer) false)
  | probeBuilt {ms caller effect} (answer : Except Exc Unit) :
      Life e ms (.held caller (.reconciling effect) false) →
      Life e (.built caller answer :: ms) (.held caller (.probeBuilt effect answer) false)
  | probeBegan {ms caller effect} : Life e ms (.held caller (.probeBuilt effect (.ok ())) false) →
      Life e (.probeBegan caller :: ms) (.held caller (.probeBuilt effect (.ok ())) true)
  | probed {ms caller effect} (answer : Except Exc ProbeReturn) :
      Life e ms (.held caller (.probeBuilt effect (.ok ())) true) →
      Life e (.probed caller answer :: ms) (.held caller (.probed effect answer) false)
  | settled {ms caller hold effect procedure clock target data} (now : Datetime) :
      Life e ms (.held caller hold false) → hold.record? = some effect →
      Settles hold target data → isAllowed effect.status target →
      Life e (.moved ⟨caller, procedure, clock⟩ (movedRecord effect target now) data :: ms)
        (.resting (movedRecord effect target now))

/-! ## What a phase says about its record -/

/-- The status of the record that a hold is about. -/
def Hold.status? : Hold → Option EffectStatus
  | free => none
  | entered .. | attempted .. | built .. | dispatched .. => some .dispatching
  | reconciling _ | probeBuilt .. | probed .. => some .reconciling

/-- The record of a phase belongs to the effect, is held exactly if its status says so,
and is only probed if its class says so; an outstanding call is the holder's next one. -/
structure Phase.Fits (e : Str) (phase : Phase) : Prop where
  effectId : ∀ effect, phase.record? = some effect → effect.effectId = e
  resting : ∀ effect, phase = .resting effect → effect.status.isHeld = false
  held : ∀ caller hold calling, phase = .held caller hold calling →
    ∃ effect, hold.record? = some effect ∧ hold.status? = some effect.status
  calling : ∀ caller hold, phase = .held caller hold true → ∃ r, hold.call? = some r
  probed : ∀ effect, phase.record? = some effect → effect.status = .reconciling →
    routeUnknown effect.contract.safety = .reconciling

theorem Broker.isResolution_rests {target : EffectStatus} (h : Broker.isResolution target) :
    target.isHeld = false ∧ target.isClaimable = false := by
  cases target <;> first | exact ⟨rfl, rfl⟩ | cases h

theorem Settles.not_held {hold : Hold} {target : EffectStatus} {data : Items}
    (h : Settles hold target data) : target.isHeld = false := by
  cases h with
  | refused | nonCommit =>
    unfold nonCommitTarget
    split <;> rfl
  | _ => rfl

theorem Phase.entering_of_not_held {caller : Nat} {route : Route} {after : EffectRecord}
    (h : after.status.isHeld = false) : Phase.entering caller route after = .resting after := by
  unfold entering Hold.entering
  cases hs : after.status <;> rw [hs] at h <;> first | rfl | cases h

theorem Phase.entering_dispatching {caller : Nat} {route : Route} {after : EffectRecord}
    (h : after.status = .dispatching) :
    Phase.entering caller route after = .held caller (.entered route after) false := by
  unfold entering Hold.entering
  rw [h]

theorem Phase.entering_reconciling {caller : Nat} {route : Route} {after : EffectRecord}
    (h : after.status = .reconciling) :
    Phase.entering caller route after = .held caller (.reconciling after) false := by
  unfold entering Hold.entering
  rw [h]

/-- A caller that has moved an effect dispatches it, probes it, or leaves it at rest. -/
theorem Phase.entering_cases (caller : Nat) (route : Route) (after : EffectRecord) :
    (after.status = .dispatching ∧
      Phase.entering caller route after = .held caller (.entered route after) false) ∨
    (after.status = .reconciling ∧
      Phase.entering caller route after = .held caller (.reconciling after) false) ∨
    (after.status.isHeld = false ∧ Phase.entering caller route after = .resting after) := by
  cases hs : after.status with
  | dispatching => exact .inl ⟨rfl, entering_dispatching hs⟩
  | reconciling => exact .inr (.inl ⟨rfl, entering_reconciling hs⟩)
  | _ => exact .inr (.inr ⟨rfl, entering_of_not_held (by rw [hs]; rfl)⟩)

theorem Phase.Fits.ofResting {e : Str} {effect : EffectRecord} (hid : effect.effectId = e)
    (hs : effect.status.isHeld = false) : (Phase.resting effect).Fits e := by
  refine ⟨fun r hr => ?_, fun r hr => ?_, fun _ _ _ h => (nomatch h), fun _ _ h => (nomatch h),
    fun r hr hstatus => ?_⟩
  · cases hr
    exact hid
  · cases hr
    exact hs
  · cases hr
    rw [hstatus] at hs
    cases hs

theorem Phase.Fits.ofHeld {e : Str} {caller : Nat} {hold : Hold} {calling : Bool}
    {effect : EffectRecord} (hr : hold.record? = some effect) (hid : effect.effectId = e)
    (hs : hold.status? = some effect.status) (hc : calling = true → ∃ r, hold.call? = some r)
    (hp : effect.status = .reconciling → routeUnknown effect.contract.safety = .reconciling) :
    (Phase.held caller hold calling).Fits e := by
  refine ⟨fun r h => ?_, fun _ h => (nomatch h), fun _ _ _ h => ?_, fun _ _ h => ?_,
    fun r h => ?_⟩
  · rw [Phase.record?, hr] at h
    cases h
    exact hid
  · cases h
    exact ⟨effect, hr, hs⟩
  · cases h
    exact hc rfl
  · rw [Phase.record?, hr] at h
    cases h
    exact hp

/-- What a caller that holds nothing has moved fits. -/
theorem Phase.Fits.entering {e : Str} {caller : Nat} {route : Route} {after : EffectRecord}
    (hid : after.effectId = e)
    (hp : after.status = .reconciling → routeUnknown after.contract.safety = .reconciling) :
    (Phase.entering caller route after).Fits e := by
  rcases Phase.entering_cases caller route after with ⟨hs, heq⟩ | ⟨hs, heq⟩ | ⟨hs, heq⟩ <;> rw [heq]
  · exact .ofHeld rfl hid (congrArg some hs.symm) (fun h => nomatch h) hp
  · exact .ofHeld rfl hid (congrArg some hs.symm) (fun h => nomatch h) hp
  · exact .ofResting hid hs

theorem Phase.entering_ne_unborn {caller : Nat} {route : Route} {after : EffectRecord} :
    Phase.entering caller route after ≠ .unborn := by
  rcases Phase.entering_cases caller route after with ⟨-, heq⟩ | ⟨-, heq⟩ | ⟨-, heq⟩ <;> rw [heq] <;>
    exact fun h => nomatch h

theorem Life.unborn_moments {e : Str} {ms : List Moment} (h : Life e ms .unborn) : ms = [] := by
  generalize hp : Phase.unborn = phase at h
  cases h with
  | unborn => rfl
  | started => exact absurd hp.symm Phase.entering_ne_unborn
  | _ => cases hp

theorem Starts.reconciling {procedure : Procedure} {clock : Option Datetime} {effect : EffectRecord}
    {data : Items} (h : Starts procedure clock effect .reconciling data) :
    routeUnknown effect.contract.safety = .reconciling := by
  cases h with
  | reconcile hs => exact hs
  | resolve _ _ hr => cases hr

theorem Life.fits {e : Str} {ms : List Moment} {phase : Phase} (h : Life e ms phase) :
    phase.Fits e := by
  induction h with
  | unborn =>
    exact ⟨fun _ h => (nomatch h), fun _ h => (nomatch h), fun _ _ _ h => (nomatch h),
      fun _ _ h => (nomatch h), fun _ h => (nomatch h)⟩
  | reserved hid hs _ => exact .ofResting hid (by rw [hs]; rfl)
  | @claimed _ effect now _ _ ih => exact .ofResting (ih.effectId effect rfl) (ih.resting effect rfl)
  | @started _ effect _ _ target _ caller now _ hstarts _ ih =>
    refine .entering (ih.effectId effect rfl) fun hs => ?_
    obtain rfl : target = .reconciling := hs
    exact hstarts.reconciling
  | @settled _ _ _ effect _ _ _ _ now _ hr hs _ ih =>
    exact .ofResting (ih.effectId effect hr) hs.not_held
  | began _ ih | landed _ ih | probeBegan _ ih =>
    obtain ⟨effect, hr, hs⟩ := ih.held _ _ _ rfl
    cases hr
    exact .ofHeld rfl (ih.effectId _ rfl) hs (fun _ => ⟨_, rfl⟩) (ih.probed _ rfl)
  | attempted _ ih | built _ _ ih | dispatched _ _ ih | probeBuilt _ _ ih | probed _ _ ih =>
    obtain ⟨effect, hr, hs⟩ := ih.held _ _ _ rfl
    cases hr
    exact .ofHeld rfl (ih.effectId _ rfl) hs (fun h => nomatch h) (ih.probed _ rfl)

/-- A record that nobody may hold is at rest. -/
theorem Phase.Fits.of_not_held {e : Str} {phase : Phase} {effect : EffectRecord}
    (h : phase.Fits e) (hr : phase.record? = some effect) (hs : effect.status.isHeld = false) :
    phase = .resting effect := by
  cases phase with
  | unborn => cases hr
  | resting r =>
    cases hr
    rfl
  | held c hold calling =>
    obtain ⟨r, hrec, hstatus⟩ := h.held _ _ _ rfl
    rw [Phase.record?, hrec] at hr
    cases hr
    cases hold <;> simp_all [Hold.status?, EffectStatus.isHeld] <;> simp [← hstatus] at hs

theorem EffectStatus.isHeld_of_isClaimable {status : EffectStatus} (h : status.isClaimable) :
    status.isHeld = false := by
  cases status <;> first | rfl | cases h

theorem Phase.Fits.of_claimable {e : Str} {phase : Phase} {effect : EffectRecord}
    (h : phase.Fits e) (hr : phase.record? = some effect) (hs : effect.status.isClaimable) :
    phase = .resting effect := h.of_not_held hr (EffectStatus.isHeld_of_isClaimable hs)

theorem Hold.effectId?_entering {route : Route} {after : EffectRecord} {x : Str}
    (h : (Hold.entering route after).effectId? = some x) : after.effectId = x := by
  unfold Hold.entering at h
  split at h <;> first | exact Option.some.inj h | cases h

theorem Phase.record?_entering {caller : Nat} {route : Route} {after : EffectRecord} :
    (Phase.entering caller route after).record? = some after := by
  rcases Phase.entering_cases caller route after with ⟨-, heq⟩ | ⟨-, heq⟩ | ⟨-, heq⟩ <;> rw [heq] <;>
    rfl

/-- A caller that holds nothing only moves effects that nobody holds. -/
theorem Starts.not_held {procedure : Procedure} {clock : Option Datetime} {effect : EffectRecord}
    {target : EffectStatus} {data : Items} (h : Starts procedure clock effect target data)
    (hedge : isAllowed effect.status target)
    (hprobed : effect.status = .reconciling → routeUnknown effect.contract.safety = .reconciling) :
    effect.status.isHeld = false := by
  cases h with
  | claimed _ hc | cancel _ hc => exact EffectStatus.isHeld_of_isClaimable hc
  | resolve _ hm =>
    rw [hm]
    rfl
  | review hr =>
    cases hs : effect.status <;> rw [hs] at hedge
    case reconciling => exact absurd (hprobed hs) hr
    all_goals first | rfl | cases hedge
  | redispatch | reconcile => cases hs : effect.status <;> rw [hs] at hedge <;> first | rfl | cases hedge

/-! ## Attempt ids -/

/-- The attempt that a holder has started. -/
def Hold.attemptId? : Hold → Option Str
  | attempted _ _ attemptId | built _ _ attemptId _ | dispatched _ _ attemptId _ => some attemptId
  | _ => none

/-- A holder's attempt is the latest. -/
theorem Life.attemptId {e : Str} {ms : List Moment} {phase : Phase} (h : Life e ms phase) :
    ∀ caller hold calling attemptId, phase = .held caller hold calling →
      hold.attemptId? = some attemptId →
      attemptId = attemptIdOf e (attemptsIn ms) ∧ 0 < attemptsIn ms := by
  induction h with
  | unborn | reserved | claimed | settled => exact fun _ _ _ _ heq => nomatch heq
  | @started _ effect procedure _ target _ caller now =>
    intro _ _ _ _ heq ha
    rcases Phase.entering_cases caller procedure.route (movedRecord effect target now) with
      ⟨-, h⟩ | ⟨-, h⟩ | ⟨-, h⟩ <;> rw [h] at heq <;> cases heq <;> cases ha
  | attempted =>
    intro _ _ _ _ heq ha
    cases heq
    cases ha
    simp [attemptsIn]
  | built _ _ ih =>
    intro _ _ _ _ heq ha
    cases heq
    exact ih _ _ _ _ rfl ha
  | began _ ih | landed _ ih =>
    intro _ _ _ _ heq ha
    cases heq
    exact ih _ _ _ _ rfl ha
  | dispatched _ _ ih =>
    intro _ _ _ _ heq ha
    cases heq
    exact ih _ _ _ _ rfl ha
  | probeBuilt | probeBegan | probed =>
    intro _ _ _ _ heq ha
    cases heq
    cases ha

theorem attemptOrdinal_attemptIdOf (e : Str) (n : Nat) : attemptOrdinal (attemptIdOf e n) = n := by
  unfold attemptOrdinal
  rw [rsplitOnce_attemptIdOf]
  simp only [int_decimal, Option.getD_some]

/-- Without retries, a proven non-commit is final. -/
theorem nonCommitTarget_of_no_retries {e : Str} {n : Nat} {effect : EffectRecord}
    (h : effect.contract.retryLimit = 0) :
    nonCommitTarget effect (attemptIdOf e n) = .failedFinal := by
  unfold nonCommitTarget
  rw [attemptOrdinal_attemptIdOf, h, if_neg (by omega)]

/-! ## Earlier in the same life -/

/-- Any phase after this one is of the same effect. -/
def Phase.Precedes (earlier later : Phase) : Prop :=
  ∀ a, earlier.record? = some a → ∃ b, later.record? = some b ∧ SameEffect a b

theorem Phase.Precedes.refl (phase : Phase) : phase.Precedes phase := fun a h => ⟨a, h, .refl a⟩

theorem Phase.Precedes.then {p q r : Phase} (hpq : p.Precedes q) {a b : EffectRecord}
    (hq : q.record? = some a) (hr : r.record? = some b) (hab : SameEffect a b) : p.Precedes r := by
  intro x hx
  obtain ⟨y, hy, hxy⟩ := hpq x hx
  rw [hq] at hy
  cases hy
  exact ⟨b, hr, hxy.trans hab⟩

theorem Phase.Precedes.trans {p q r : Phase} (hpq : p.Precedes q) (hqr : q.Precedes r) :
    p.Precedes r := by
  intro x hx
  obtain ⟨y, hy, hxy⟩ := hpq x hx
  obtain ⟨z, hz, hyz⟩ := hqr y hy
  exact ⟨z, hz, hxy.trans hyz⟩

/-- One moment earlier. -/
theorem Life.before {e : Str} {m : Moment} {ms all : List Moment} {phase : Phase}
    (h : Life e all phase) (hall : all = m :: ms) :
    ∃ earlier, Life e ms earlier ∧ earlier.Precedes phase := by
  induction h with
  | unborn => cases hall
  | reserved =>
    cases hall
    exact ⟨.unborn, .unborn, fun _ h => nomatch h⟩
  | claimed _ _ _ ih =>
    obtain ⟨earlier, hlife, hpre⟩ := ih hall
    exact ⟨earlier, hlife, hpre.then rfl rfl rfl⟩
  | started _ _ hlife =>
    cases hall
    exact ⟨_, hlife, (Phase.Precedes.refl _).then rfl Phase.record?_entering rfl⟩
  | settled _ hlife hr =>
    cases hall
    exact ⟨_, hlife, (Phase.Precedes.refl _).then hr rfl rfl⟩
  | attempted hlife | built _ hlife | began hlife | landed hlife | dispatched _ hlife
  | probeBuilt _ hlife | probeBegan hlife | probed _ hlife =>
    cases hall
    exact ⟨_, hlife, (Phase.Precedes.refl _).then rfl rfl (.refl _)⟩

/-- Every part of a life, from its beginning, is a life. -/
theorem Life.earlier {e : Str} {newer older : List Moment} {phase : Phase}
    (h : Life e (newer ++ older) phase) :
    ∃ earlier, Life e older earlier ∧ earlier.Precedes phase := by
  induction newer generalizing phase with
  | nil => exact ⟨phase, h, .refl phase⟩
  | cons m newer ih =>
    obtain ⟨middle, hmiddle, hpre⟩ := h.before rfl
    obtain ⟨earlier, hlife, hpre'⟩ := ih hmiddle
    exact ⟨earlier, hlife, hpre'.trans hpre⟩

/-- A dispatch begins from a built adapter. -/
theorem Life.of_began {e : Str} {c : Nat} {a : Str} {ms all : List Moment} {phase : Phase}
    (h : Life e all phase) (hall : all = .began c a :: ms) :
    ∃ route effect, Life e ms (.held c (.built route effect a (.ok ())) false) ∧
      phase = .held c (.built route effect a (.ok ())) true := by
  induction h with
  | claimed _ _ _ ih =>
    obtain ⟨_, _, _, hphase⟩ := ih hall
    cases hphase
  | began hlife =>
    cases hall
    exact ⟨_, _, hlife, rfl⟩
  | _ => cases hall

/-- How an effect came to be moved: a caller that held nothing started it, or its holder
settled it. -/
inductive MovedBy (mover : Mover) (before : EffectRecord) (target : EffectStatus) (data : Items) :
    Phase → Prop where
  | started {procedure} : mover.procedure = some procedure →
      Starts procedure mover.clock before target data →
      MovedBy mover before target data (.resting before)
  | settled {hold : Hold} : hold.record? = some before → Settles hold target data →
      MovedBy mover before target data (.held mover.caller hold false)

theorem MovedBy.record? {mover : Mover} {before : EffectRecord} {target : EffectStatus} {data : Items}
    {phase : Phase} (h : MovedBy mover before target data phase) : phase.record? = some before := by
  cases h with
  | started => rfl
  | settled hr => exact hr

/-- What one move says about the life before it. -/
theorem Life.of_moved {e : Str} {mover : Mover} {after : EffectRecord} {data : Items}
    {ms all : List Moment} {phase : Phase} (h : Life e all phase)
    (hall : all = .moved mover after data :: ms) :
    ∃ before earlier, Life e ms earlier ∧ earlier.Precedes phase ∧
      MovedBy mover before after.status data earlier ∧
      isAllowed before.status after.status ∧ ∃ now, after = movedRecord before after.status now := by
  induction h with
  | claimed _ _ _ ih =>
    obtain ⟨before, earlier, hlife, hpre, hmoved⟩ := ih hall
    exact ⟨before, earlier, hlife, hpre.then rfl rfl rfl, hmoved⟩
  | started caller now hlife hstarts hedge =>
    cases hall
    exact ⟨_, _, hlife, (Phase.Precedes.refl _).then rfl Phase.record?_entering rfl,
      .started rfl hstarts, hedge, now, rfl⟩
  | settled now hlife hr hs hedge =>
    cases hall
    exact ⟨_, _, hlife, (Phase.Precedes.refl _).then hr rfl rfl, .settled hr hs, hedge, now, rfl⟩
  | _ => cases hall

/-- A dispatch that has ended is the latest moment. -/
theorem Life.of_dispatched_hold {e : Str} {ms : List Moment} {phase : Phase} (h : Life e ms phase)
    {c : Nat} {route : Route} {effect : EffectRecord} {a : Str} {answer : Except Exc DispatchReturn}
    {calling : Bool} (hphase : phase = .held c (.dispatched route effect a answer) calling) :
    ∃ older, ms = .dispatched c a answer :: older := by
  cases h with
  | dispatched =>
    cases hphase
    exact ⟨_, rfl⟩
  | @started _ before procedure _ target _ caller now =>
    rcases Phase.entering_cases caller procedure.route (movedRecord before target now) with
      ⟨-, heq⟩ | ⟨-, heq⟩ | ⟨-, heq⟩ <;> rw [heq] at hphase <;> cases hphase
  | _ => cases hphase

/-- A probe that has ended is the latest moment. -/
theorem Life.of_probed_hold {e : Str} {ms : List Moment} {phase : Phase} (h : Life e ms phase)
    {c : Nat} {effect : EffectRecord} {answer : Except Exc ProbeReturn} {calling : Bool}
    (hphase : phase = .held c (.probed effect answer) calling) :
    ∃ older, ms = .probed c answer :: older := by
  cases h with
  | probed =>
    cases hphase
    exact ⟨_, rfl⟩
  | @started _ before procedure _ target _ caller now =>
    rcases Phase.entering_cases caller procedure.route (movedRecord before target now) with
      ⟨-, heq⟩ | ⟨-, heq⟩ | ⟨-, heq⟩ <;> rw [heq] at hphase <;> cases hphase
  | _ => cases hphase

/-- Nothing happens at rest, except that a claimable effect is claimed: the latest moment
is the move to where it rests. -/
theorem Life.last_move {e : Str} {ms : List Moment} {phase : Phase} (h : Life e ms phase) :
    ∀ effect, phase.record? = some effect → effect.status.isHeld = false →
      effect.status.isClaimable = false → ∃ mover data older, ms = .moved mover effect data :: older := by
  induction h with
  | unborn => exact fun _ h => nomatch h
  | reserved _ hs =>
    intro effect heq _ hc
    cases heq
    rw [hs] at hc
    cases hc
  | claimed _ _ hclaimable =>
    intro effect heq _ hc
    cases heq
    exact nomatch hclaimable.symm.trans hc
  | started =>
    intro effect heq _ _
    obtain rfl := Option.some.inj (Phase.record?_entering.symm.trans heq)
    exact ⟨_, _, _, rfl⟩
  | settled =>
    intro effect heq _ _
    cases heq
    exact ⟨_, _, _, rfl⟩
  | attempted hlife | built _ hlife | began hlife | landed hlife | dispatched _ hlife
  | probeBuilt _ hlife | probeBegan hlife | probed _ hlife =>
    intro effect heq hs _
    cases heq
    obtain ⟨_, hr, hstatus⟩ := hlife.fits.held _ _ _ rfl
    cases hr
    rw [← Option.some.inj hstatus] at hs
    cases hs

/-- Versions only grow. -/
theorem Life.moved_version {e : Str} {ms : List Moment} {phase : Phase} (h : Life e ms phase) :
    ∀ mover after data, .moved mover after data ∈ ms →
      ∃ current, phase.record? = some current ∧ after.version ≤ current.version := by
  induction h with
  | unborn => exact fun _ _ _ hm => nomatch hm
  | reserved =>
    intro _ _ _ hm
    rcases List.mem_cons.mp hm with hm | hm <;> cases hm
  | @claimed _ effect now _ _ ih =>
    intro mover after data hm
    obtain ⟨_, hr, hle⟩ := ih mover after data hm
    cases hr
    exact ⟨_, rfl, hle.trans (Nat.le_succ _)⟩
  | started _ _ _ _ _ ih =>
    intro mover after data hm
    refine ⟨_, Phase.record?_entering, ?_⟩
    rcases List.mem_cons.mp hm with hm | hm
    · cases hm
      exact le_rfl
    · obtain ⟨_, hr, hle⟩ := ih mover after data hm
      cases hr
      exact hle.trans (Nat.le_succ _)
  | settled _ _ hrec _ _ ih =>
    intro mover after data hm
    refine ⟨_, rfl, ?_⟩
    rcases List.mem_cons.mp hm with hm | hm
    · cases hm
      exact le_rfl
    · obtain ⟨_, hr, hle⟩ := ih mover after data hm
      cases hrec.symm.trans hr
      exact hle.trans (Nat.le_succ _)
  | attempted _ ih | built _ _ ih | began _ ih | landed _ ih | dispatched _ _ ih | probeBuilt _ _ ih
  | probeBegan _ ih | probed _ _ ih =>
    intro mover after data hm
    rcases List.mem_cons.mp hm with hm | hm
    · cases hm
    · exact ih mover after data hm

/-- One move is not repeated: whoever left a record as it is moved it last. -/
theorem Life.moved_once {e : Str} {mover mover' : Mover} {effect : EffectRecord} {data data' : Items}
    {ms : List Moment} {phase : Phase} (h : Life e (.moved mover effect data :: ms) phase)
    (hm : .moved mover' effect data' ∈ Moment.moved mover effect data :: ms) : mover' = mover := by
  obtain ⟨before, earlier, hlife, -, hmoved, -, now, hafter⟩ := h.of_moved rfl
  rcases List.mem_cons.mp hm with hm | hm
  · cases hm
    rfl
  · obtain ⟨current, hcurrent, hle⟩ := hlife.moved_version _ _ _ hm
    cases hmoved.record?.symm.trans hcurrent
    rw [hafter] at hle
    exact absurd hle (Nat.not_succ_le_self _)

/-- The route of a holder that dispatches. -/
def Hold.route? : Hold → Option Route
  | entered route _ | attempted route _ _ | built route _ _ _ | dispatched route _ _ _ => some route
  | _ => none

/-- A holder that dispatches has moved the effect itself, by a procedure of its route. -/
theorem Life.hold_mover {e : Str} {ms : List Moment} {phase : Phase} (h : Life e ms phase) :
    ∀ caller hold calling route, phase = .held caller hold calling → hold.route? = some route →
      ∃ procedure clock after data, .moved ⟨caller, some procedure, clock⟩ after data ∈ ms ∧
        procedure.route = route := by
  induction h with
  | unborn | reserved | claimed | settled => exact fun _ _ _ _ heq => nomatch heq
  | @started _ effect procedure clock target data caller now =>
    intro _ _ _ _ heq hr
    rcases Phase.entering_cases caller procedure.route (movedRecord effect target now) with
      ⟨-, h⟩ | ⟨-, h⟩ | ⟨-, h⟩ <;> rw [h] at heq <;> cases heq <;> cases hr
    exact ⟨_, _, _, _, List.mem_cons_self .., rfl⟩
  | attempted _ ih | built _ _ ih | began _ ih | landed _ ih | dispatched _ _ ih =>
    intro _ _ _ _ heq hr
    cases heq
    obtain ⟨procedure, clock, after, data, hm, hroute⟩ := ih _ _ _ _ rfl hr
    exact ⟨procedure, clock, after, data, List.mem_cons_of_mem _ hm, hroute⟩
  | probeBuilt | probeBegan | probed =>
    intro _ _ _ _ heq hr
    cases heq
    cases hr

end EffectBroker
