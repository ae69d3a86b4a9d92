import EffectBroker.Cancellation
import EffectBroker.SuccessEvidence
import EffectBroker.TargetCharges

/-!
# One charge per operation

The simulated target deduplicates the retries of two classes only.  For the other two, the
broker must not dispatch an effect again once it has been charged: an effect that may be
claimed has not been, and neither has one that a probe found nothing of.
-/
namespace EffectBroker
open Python Concurrency

/-! ## Charges in a life -/

/-- The answer of a dispatch that has found its charge or made one. -/
def Paid : Except Exc DispatchReturn → Prop
  | .ok _ | .error (.ambiguousDispatch _) => True
  | .error _ => False

/-- A dispatch that was charged. -/
def Moment.paid : Moment → Prop
  | .dispatched _ _ answer => Paid answer
  | _ => False

/-- Some dispatch of the effect was charged. -/
def Charged (ms : List Moment) : Prop := ∃ m ∈ ms, m.paid

theorem charged_cons {m : Moment} {ms : List Moment} :
    Charged (m :: ms) ↔ m.paid ∨ Charged ms := by
  unfold Charged
  simp only [List.mem_cons, exists_eq_or_imp]

theorem charged_dispatched {c : Nat} {attemptId : Str} {answer : Except Exc DispatchReturn}
    {ms : List Moment} : Charged (.dispatched c attemptId answer :: ms) ↔ Paid answer ∨ Charged ms :=
  charged_cons

theorem Charged.of_cons {m : Moment} {ms : List Moment} (h : Charged (m :: ms)) :
    m.paid ∨ Charged ms := charged_cons.mp h

/-- What the target vouches for: a proven non-commit was not charged, and an effect that a
probe found nothing of had not been. -/
def Vouched (older : List Moment) : Moment → Prop
  | .dispatched _ _ answer => ProvesNonCommit answer → ¬Paid answer
  | .probed _ (.ok result) => result.status = .ok (.known .notCommitted) → ¬Charged older
  | _ => True

/-- The moments that are no outcome of a call. -/
def Moment.quiet : Moment → Prop
  | .dispatched .. | .probed .. => False
  | _ => True

theorem Moment.quiet.not_paid {m : Moment} (h : m.quiet) : ¬m.paid := by
  unfold paid
  split
  · exact fun _ => h
  · exact id

/-- Where an effect whose retries are not deduplicated has not been charged. -/
def Uncharged (ms : List Moment) : Phase → Prop
  | .unborn => True
  | .resting effect => effect.status.isClaimable → ¬Charged ms
  | .held _ (.entered ..) _ | .held _ (.attempted ..) _ | .held _ (.built ..) _ => ¬Charged ms
  | .held _ (.dispatched _ _ _ answer) _ => ProvesNonCommit answer → ¬Charged ms
  | .held _ (.probed _ (.ok result)) _ =>
    result.status = .ok (.known .notCommitted) → ¬Charged ms
  | .held .. => True

/-- An effect whose retries are not deduplicated is not dispatched once it is charged. -/
theorem Life.uncharged {e : Str} {ms : List Moment} {phase : Phase} (h : Life e ms phase)
    (hvouched : Throughout Vouched ms) : ∀ effect, phase.record? = some effect →
      ¬SimulatedAdapter.Deduplicated effect → Uncharged ms phase := by
  induction h with
  | unborn => exact fun _ h => nomatch h
  | reserved =>
    intro _ _ _ _
    exact fun hcharged => List.not_mem_nil (hcharged.of_cons.resolve_left id).choose_spec.1
  | @claimed _ effect now _ hc ih =>
    intro effect' heq hsafety
    cases heq
    exact fun _ => ih hvouched effect rfl hsafety hc
  | @started ms effect procedure clock target data caller now _ hstarts hedge ih =>
    intro effect' heq hsafety
    obtain rfl := Option.some.inj (Phase.record?_entering.symm.trans heq)
    have huncharged := ih hvouched.2 effect rfl hsafety
    have rest : target.isHeld = false → target.isClaimable = false →
        Uncharged (.moved ⟨caller, some procedure, clock⟩ (movedRecord effect target now) data :: ms)
          (.entering caller procedure.route (movedRecord effect target now)) := by
      intro hheld hc
      rw [Phase.entering_of_not_held hheld]
      intro h
      rw [show (movedRecord effect target now).status = target from rfl, hc] at h
      cases h
    cases hstarts with
    | claimed hroute hc =>
      rw [Phase.entering_dispatching rfl]
      exact fun hcharged => huncharged hc (hcharged.of_cons.resolve_left id)
    | redispatch _ hi => exact absurd (.inl hi) hsafety
    | reconcile =>
      rw [Phase.entering_reconciling rfl]
      trivial
    | review | cancel => exact rest rfl rfl
    | resolve _ _ hr => exact rest (Broker.isResolution_rests hr).1 (Broker.isResolution_rests hr).2
  | attempted _ ih | built _ _ ih | began _ ih | landed _ ih =>
    intro effect heq hsafety
    cases heq
    exact fun hcharged => ih hvouched.2 _ rfl hsafety (hcharged.of_cons.resolve_left id)
  | dispatched answer _ ih =>
    intro effect heq hsafety
    cases heq
    intro hproves hcharged
    rcases hcharged.of_cons with hpaid | hcharged
    · exact hvouched.1 hproves hpaid
    · exact ih hvouched.2 _ rfl hsafety hcharged
  | probeBuilt | probeBegan => exact fun _ _ _ => trivial
  | probed answer =>
    intro _ _ _
    cases answer with
    | error _ => trivial
    | ok result => exact fun hs hcharged => hvouched.1 hs (hcharged.of_cons.resolve_left id)
  | @settled ms caller hold effect procedure clock target data now hlife hr hs _ ih =>
    intro effect' heq hsafety
    cases heq
    have huncharged := ih hvouched.2 effect hr hsafety
    intro hclaimable hcharged
    have hbefore : Charged ms := hcharged.of_cons.resolve_left id
    cases hs with
    | committed | unbuilt | unknown | probeCommitted | probeUnknown => cases hclaimable
    | refused => exact huncharged hbefore
    | nonCommit hp => exact huncharged hp hbefore
    | redispatchNonCommit ha => exact huncharged (.raised ha) hbefore
    | probeNotCommitted hstatus => exact huncharged hstatus hbefore

/-! ## The account of one effect -/

/-- An id that a call has reported for a charge of the effect. -/
inductive Reported (ms : List Moment) : Value → Prop where
  | dispatched {c attemptId result externalId} : .dispatched c attemptId (.ok result) ∈ ms →
      result.externalId = .ok externalId → Reported ms externalId
  | probed {c probe externalId} : .probed c (.ok probe) ∈ ms →
      probe.status = .ok (.known .committed) → probe.externalId = .ok externalId →
      Reported ms externalId

/-- The target has one charge of the effect if some dispatch of it was charged, and none
otherwise; and that charge is the one that its calls have reported. -/
structure Accounted (charges : List SimulatedCharge) (ms : List Moment) : Prop where
  vouched : Throughout Vouched ms
  balance : charges = [] ∧ ¬Charged ms ∨
    ∃ charge, charges = [charge] ∧ Charged ms
  reported : ∀ externalId, Reported ms externalId →
    ∃ charge, charges = [charge] ∧ externalId = .str charge.externalId

theorem Reported.of_cons {m : Moment} {ms : List Moment} {externalId : Value}
    (h : Reported (m :: ms) externalId) : Reported ms externalId ∨ Reported [m] externalId := by
  cases h with
  | dispatched hm hx =>
    rcases List.mem_cons.mp hm with rfl | hm
    · exact .inr (.dispatched (List.mem_singleton_self _) hx)
    · exact .inl (.dispatched hm hx)
  | probed hm hs hx =>
    rcases List.mem_cons.mp hm with rfl | hm
    · exact .inr (.probed (List.mem_singleton_self _) hs hx)
    · exact .inl (.probed hm hs hx)

theorem Moment.quiet.not_reported {m : Moment} {externalId : Value} (h : m.quiet) :
    ¬Reported [m] externalId := by
  intro hr
  cases hr with
  | dispatched hm | probed hm =>
    obtain rfl := List.mem_singleton.mp hm
    exact h

namespace Accounted
variable {charges : List SimulatedCharge} {effect : EffectRecord} {ms : List Moment}

/-- A new effect has no charge. -/
theorem new : Accounted [] [] := by
  refine ⟨trivial, .inl ⟨rfl, ?_⟩, ?_⟩
  · rintro ⟨_, hm, -⟩
    cases hm
  · intro externalId h
    cases h with
    | dispatched hm | probed hm => cases hm

theorem atMostOne (h : Accounted charges ms) : charges.length ≤ 1 := by
  rcases h.balance with ⟨rfl, -⟩ | ⟨charge, rfl, -⟩
  · exact Nat.zero_le _
  · exact le_rfl

theorem quiet (h : Accounted charges ms) {m : Moment} (hm : m.quiet) :
    Accounted charges (m :: ms) := by
  refine ⟨⟨?_, h.vouched⟩, ?_, fun externalId hr => ?_⟩
  · unfold Vouched
    split
    · exact hm.elim
    · exact hm.elim
    · trivial
  · rw [charged_cons, or_iff_right hm.not_paid]
    exact h.balance
  · exact h.reported _ (hr.of_cons.resolve_right hm.not_reported)

/-- A dispatch: if the retries of the effect are not deduplicated, it had not been charged. -/
theorem dispatched {target target' : SimulatedTarget} {answer : Except Exc DispatchResult}
    (h : Accounted (target.chargesForKey effect.downstreamKey) ms) (c : Nat) (attemptId : Str)
    (hcharges : Charges target.chargesForKey effect (SimulatedAdapter.Deduplicated effect)
      SimulatedAdapter.Reports (answer, target'))
    (hfirst : ¬SimulatedAdapter.Deduplicated effect → ¬Charged ms) :
    Accounted (target'.chargesForKey effect.downstreamKey)
      (.dispatched c attemptId (answer.map DispatchResult.read) :: ms) := by
  -- once the target has its one charge, the answer is paid and reports that charge
  have answered : ∀ charge, target'.chargesForKey effect.downstreamKey = [charge] →
      SimulatedAdapter.Reports charge answer →
      (∀ externalId, Reported ms externalId → externalId = .str charge.externalId) →
      Accounted (target'.chargesForKey effect.downstreamKey)
        (.dispatched c attemptId (answer.map DispatchResult.read) :: ms) := by
    intro charge hone hreports hbefore
    have hpaid : Paid (answer.map DispatchResult.read) := by
      cases hreports <;> trivial
    have hunproved : ¬ProvesNonCommit (answer.map DispatchResult.read) := by
      intro hp
      cases hreports with
      | lost =>
        cases hp with
        | raised ha => cases ha
      | returned =>
        cases hp with
        | read _ hr => rcases hr with hr | ⟨-, hr | hr⟩ <;> cases hr
    refine ⟨⟨fun hp => absurd hp hunproved, h.vouched⟩, .inr ⟨charge, hone, charged_dispatched.mpr (.inl hpaid)⟩,
      fun externalId hr => ⟨charge, hone, ?_⟩⟩
    rcases hr.of_cons with hr | hr
    · exact hbefore externalId hr
    · cases hr with
      | probed hm => cases List.mem_singleton.mp hm
      | dispatched hm hx =>
        cases hreports with
        | lost => cases List.mem_singleton.mp hm
        | returned =>
          cases List.mem_singleton.mp hm
          cases hx
          rfl
  cases hcharges with
  | @refused exc _ hsame hexc =>
    have hunpaid : ¬Paid ((.error exc : Except Exc DispatchResult).map DispatchResult.read) := by
      intro hp
      cases exc with
      | ambiguousDispatch message => exact hexc message rfl
      | _ => exact hp
    rw [hsame]
    refine ⟨⟨fun _ => hunpaid, h.vouched⟩, ?_, fun externalId hr => ?_⟩
    · rw [charged_dispatched, or_iff_right hunpaid]
      exact h.balance
    · refine h.reported externalId (hr.of_cons.resolve_right fun hr => ?_)
      cases hr with
      | dispatched hm | probed hm => cases List.mem_singleton.mp hm
  | @found charge _ _ _ hhead hsame hreports =>
    rcases h.balance with ⟨hnone, -⟩ | ⟨charge', hone, -⟩
    · rw [hnone] at hhead
      cases hhead
    · rw [hone] at hhead
      cases hhead
      refine answered charge ((hsame _).trans hone) hreports fun externalId hr => ?_
      obtain ⟨charge', hone', hx⟩ := h.reported externalId hr
      cases hone.symm.trans hone'
      exact hx
  | @charged charge _ _ hnone hadded hreports =>
    have hempty : target.chargesForKey effect.downstreamKey = [] := by
      by_cases hdedupe : SimulatedAdapter.Deduplicated effect
      · exact hnone hdedupe
      · rcases h.balance with ⟨hempty, -⟩ | ⟨_, -, hcharged⟩
        · exact hempty
        · exact absurd hcharged (hfirst hdedupe)
    refine answered charge ?_ hreports fun externalId hr => ?_
    · rw [hadded, hempty, if_pos rfl]
      rfl
    · obtain ⟨_, hone, -⟩ := h.reported externalId hr
      cases hempty.symm.trans hone

/-- A probe only finds what is charged, and finds nothing only where nothing is. -/
theorem probed {target : SimulatedTarget} {c : Nat}
    (h : Accounted (target.chargesForKey effect.downstreamKey) ms) :
    Accounted (target.chargesForKey effect.downstreamKey)
      (.probed c ((SimulatedAdapter.probe target effect).map ProbeResult.read) :: ms) := by
  refine ⟨⟨?_, h.vouched⟩, ?_, fun externalId hr => ?_⟩
  · cases hprobe : SimulatedAdapter.probe target effect with
    | error exc => trivial
    | ok result =>
      intro hs hcharged
      have hstatus : result.status = .notCommitted := ReportedStatus.known.inj (Except.ok.inj hs)
      obtain ⟨-, hnone, -⟩ := SimulatedAdapter.probe_notCommitted hprobe hstatus
      rw [SimulatedTarget.firstByDownstreamKey_eq, List.head?_eq_none_iff] at hnone
      rcases h.balance with ⟨-, hunpaid⟩ | ⟨_, hone, -⟩
      · exact hunpaid hcharged
      · cases hnone.symm.trans hone
  · have hunpaid : ¬(Moment.probed c ((SimulatedAdapter.probe target effect).map ProbeResult.read)).paid :=
      id
    rw [charged_cons, or_iff_right hunpaid]
    exact h.balance
  · rcases hr.of_cons with hr | hr
    · exact h.reported externalId hr
    · cases hr with
      | dispatched hm => cases List.mem_singleton.mp hm
      | probed hm hs hx =>
        injection List.mem_singleton.mp hm with _ hanswer
        cases hprobe : SimulatedAdapter.probe target effect with
        | error exc =>
          rw [hprobe] at hanswer
          cases hanswer
        | ok result =>
          rw [hprobe] at hanswer
          cases hanswer
          obtain ⟨charge, hfirst, hid⟩ :=
            SimulatedAdapter.probe_committed hprobe (ReportedStatus.known.inj (Except.ok.inj hs))
          rw [SimulatedTarget.firstByDownstreamKey_eq] at hfirst
          rcases h.balance with ⟨hnone, -⟩ | ⟨charge', hone, -⟩
          · rw [hnone] at hfirst
            cases hfirst
          · rw [hone] at hfirst
            cases hfirst
            refine ⟨charge, hone, ?_⟩
            have hx : optionalText result.externalId = externalId := Except.ok.inj hx
            rw [← hx, hid]
            rfl

end Accounted

/-! ## The account of the ledger -/

/-- Distinct operations have distinct downstream keys. -/
def InMemoryStore.DistinctKeys (s : InMemoryStore) : Prop :=
  ∀ e e' effect effect', s.records.get? e = some effect → s.records.get? e' = some effect' →
    effect.downstreamKey = effect'.downstreamKey →
    effect.tenantId = effect'.tenantId ∧ effect.request.operationKey = effect'.request.operationKey

/-- Every effect is accounted for, and every charge is some effect's. -/
structure Balanced (shared : Shared InMemoryStore SimulatedTarget) (log : List BrokerEvent) : Prop where
  effects : ∀ e effect, shared.store.records.get? e = some effect →
    Accounted (shared.target.chargesForKey effect.downstreamKey) (momentsOf e log)
  owned : ∀ key, shared.target.chargesForKey key ≠ [] →
    ∃ e effect, shared.store.records.get? e = some effect ∧ effect.downstreamKey = key

section
variable {s s' : InMemoryStore} {e e' : Str} {effect effect' : EffectRecord}

/-- So the effect of a key is one. -/
theorem InMemoryStore.DistinctKeys.unique (h : s.DistinctKeys) (hkept : s.Kept)
    (hget : s.records.get? e = some effect) (hget' : s.records.get? e' = some effect')
    (hkey : effect.downstreamKey = effect'.downstreamKey) : e = e' := by
  obtain ⟨htenant, hoperation⟩ := h e e' effect effect' hget hget' hkey
  have hid := (hkept.identity _ e).mpr ⟨effect, hget, rfl⟩
  have hid' := (hkept.identity _ e').mpr ⟨effect', hget', rfl⟩
  rw [htenant, hoperation] at hid
  exact Option.some.inj (hid.symm.trans hid')

/-- A record is still there after a step, and its effect is the same. -/
theorem RecordStep.kept {after : Option EffectRecord} (h : RecordStep (some effect) after) :
    ∃ effect', after = some effect' ∧ SameEffect effect effect' := by
  cases h with
  | same => exact ⟨effect, rfl, .refl effect⟩
  | claimed | moved => exact ⟨_, rfl, rfl⟩

/-- A record was there before a step, unless it is new. -/
theorem RecordStep.origin {before : Option EffectRecord} (h : RecordStep before (some effect)) :
    before = none ∨ ∃ effect₀, before = some effect₀ ∧ SameEffect effect₀ effect := by
  cases h with
  | same => exact .inr ⟨effect, rfl, .refl effect⟩
  | reserved => exact .inl rfl
  | claimed | moved => exact .inr ⟨_, rfl, rfl⟩

theorem SameEffect.downstreamKey (h : SameEffect effect effect') :
    effect'.downstreamKey = effect.downstreamKey := by
  rw [h]

theorem SameEffect.tenantId (h : SameEffect effect effect') : effect'.tenantId = effect.tenantId := by
  rw [h]

theorem SameEffect.request (h : SameEffect effect effect') : effect'.request = effect.request := by
  rw [h]

/-- Keys that are distinct later have always been. -/
theorem InMemoryStore.DistinctKeys.earlier (h : s'.DistinctKeys)
    (hrecords : ∀ e, RecordStep (s.records.get? e) (s'.records.get? e)) : s.DistinctKeys := by
  intro e e' effect effect' hget hget' hkey
  have hstep := hrecords e
  have hstep' := hrecords e'
  rw [hget] at hstep
  rw [hget'] at hstep'
  obtain ⟨later, hlater, hsame⟩ := hstep.kept
  obtain ⟨later', hlater', hsame'⟩ := hstep'.kept
  rw [← hsame.tenantId, ← hsame'.tenantId, ← hsame.request, ← hsame'.request]
  exact h e e' later later' hlater hlater' (by rw [hsame.downstreamKey, hsame'.downstreamKey, hkey])

end

section
variable {shared shared' : Shared InMemoryStore SimulatedTarget} {log log' : List BrokerEvent}

/-- What charges nothing, and learns nothing of charges, keeps the balance. -/
theorem Balanced.frame (h : Balanced shared log) (hcoherent : Coherent shared.store log)
    (hkept : shared'.store.Kept) (hdistinct : shared'.store.DistinctKeys)
    (hcharges : ∀ key, shared'.target.chargesForKey key = shared.target.chargesForKey key)
    (hrecords : ∀ e, RecordStep (shared.store.records.get? e) (shared'.store.records.get? e))
    (hmoments : ∀ e, momentsOf e log' = momentsOf e log ∨
      ∃ m, m.quiet ∧ momentsOf e log' = m :: momentsOf e log) : Balanced shared' log' := by
  have hlater : ∀ e effect, shared.store.records.get? e = some effect →
      ∃ effect', shared'.store.records.get? e = some effect' ∧ SameEffect effect effect' := by
    intro e effect hget
    have hstep := hrecords e
    rw [hget] at hstep
    exact hstep.kept
  refine ⟨fun e effect hget => ?_, fun key hkey => ?_⟩
  · rw [hcharges]
    have hbefore : Accounted (shared.target.chargesForKey effect.downstreamKey) (momentsOf e log) := by
      have hstep := hrecords e
      rw [hget] at hstep
      rcases hstep.origin with hnone | ⟨before, hbefore, hsame⟩
      · -- the charges of a new key would be another effect's
        rw [((hcoherent.tracked e).unborn hnone).1]
        have hempty : shared.target.chargesForKey effect.downstreamKey = [] := by
          by_contra hcharged
          obtain ⟨e₀, owner, howner, hkey⟩ := h.owned _ hcharged
          obtain ⟨owner', howner', hsame⟩ := hlater e₀ owner howner
          obtain rfl := hdistinct.unique hkept howner' hget (hsame.downstreamKey.trans hkey)
          exact nomatch howner.symm.trans hnone
        rw [hempty]
        exact .new
      · rw [hsame.downstreamKey]
        exact h.effects e before hbefore
    rcases hmoments e with heq | ⟨m, hm, heq⟩ <;> rw [heq]
    · exact hbefore
    · exact hbefore.quiet hm
  · rw [hcharges] at hkey
    obtain ⟨e, effect, hget, rfl⟩ := h.owned key hkey
    obtain ⟨effect', hget', hsame⟩ := hlater e effect hget
    exact ⟨e, effect', hget', hsame.downstreamKey⟩

/-- An answer of neither a dispatch nor a probe. -/
theorem quiet_of_answerMoment {e : Str} {mover : Mover} {r : Request} {response : Response r}
    {m : Moment} (h : answerMoment e mover r response = some m)
    (hdispatch : ∀ effect attemptId, r ≠ .dispatch effect attemptId)
    (hprobe : ∀ effect, r ≠ .probe effect) : m.quiet := by
  unfold answerMoment at h
  split at h
  case h_5 => exact absurd rfl (hdispatch _ _)
  case h_6 => exact absurd rfl (hprobe _)
  case h_7 => cases h
  all_goals
    split at h <;> cases h
    trivial

/-- A dispatch of a holder keeps the balance. -/
theorem Balanced.dispatched (h : Balanced shared log) (hcoherent : Coherent shared.store log)
    (hkept : shared.store.Kept) (hdistinct : shared.store.DistinctKeys) {c : Nat} {route : Route}
    {effect : EffectRecord} {attemptId : Str}
    (hhold : holdOf log c = .built route effect attemptId (.ok ())) :
    Balanced { shared with target := (SimulatedAdapter.dispatch shared.target effect).2 }
      (.answered c (.dispatch effect attemptId)
        ((SimulatedAdapter.dispatch shared.target effect).1.map DispatchResult.read) :: log) := by
  have hid : (holdOf log c).effectId? = some effect.effectId := by
    rw [hhold]
    rfl
  obtain ⟨calling, hlife, hget, -⟩ := (hcoherent.tracked effect.effectId).holder hid
  rw [hhold] at hlife hget
  have hcharges := SimulatedAdapter.charges_dispatch shared.target effect
  have hself : Accounted ((SimulatedAdapter.dispatch shared.target effect).2.chargesForKey
        effect.downstreamKey)
      (.dispatched c attemptId
        ((SimulatedAdapter.dispatch shared.target effect).1.map DispatchResult.read) ::
          momentsOf effect.effectId log) := by
    have hbefore := h.effects effect.effectId effect hget
    exact hbefore.dispatched c attemptId hcharges fun hdedupe =>
      hlife.uncharged hbefore.vouched effect rfl hdedupe
  -- the charges of other keys stay
  have hother : ∀ key, key ≠ effect.downstreamKey →
      (SimulatedAdapter.dispatch shared.target effect).2.chargesForKey key =
        shared.target.chargesForKey key := by
    intro key hne
    generalize SimulatedAdapter.dispatch shared.target effect = out at hcharges
    cases hcharges with
    | refused hsame | found _ _ hsame => exact hsame key
    | charged _ hadded =>
      rw [hadded, if_neg hne]
      exact List.append_nil _
  refine ⟨fun e other hget' => ?_, fun key hkey => ?_⟩
  · by_cases he : effect.effectId = e
    · subst he
      cases hget.symm.trans hget'
      rw [momentsOf_cons_some (Means.dispatched rfl).momentOf_eq]
      exact hself
    · have hne : other.downstreamKey ≠ effect.downstreamKey :=
        fun hkey => he (hdistinct.unique hkept hget hget' hkey.symm)
      have hnone : answerMoment e (moverOf log c) (.dispatch effect attemptId)
          ((SimulatedAdapter.dispatch shared.target effect).1.map DispatchResult.read) = none := if_neg he
      rw [momentsOf_answered_none hnone, hother _ hne]
      exact h.effects e other hget'
  · by_cases hown : key = effect.downstreamKey
    · exact ⟨effect.effectId, effect, hget, hown.symm⟩
    · rw [hother key hown] at hkey
      exact h.owned key hkey

/-- So does a probe. -/
theorem Balanced.probed (h : Balanced shared log) (hcoherent : Coherent shared.store log) {c : Nat}
    {effect : EffectRecord} (hhold : holdOf log c = .probeBuilt effect (.ok ())) :
    Balanced shared (.answered c (.probe effect)
      ((SimulatedAdapter.probe shared.target effect).map ProbeResult.read) :: log) := by
  have hid : (holdOf log c).effectId? = some effect.effectId := by
    rw [hhold]
    rfl
  obtain ⟨-, -, hget, -⟩ := (hcoherent.tracked effect.effectId).holder hid
  rw [hhold] at hget
  refine ⟨fun e other hget' => ?_, h.owned⟩
  by_cases he : effect.effectId = e
  · subst he
    cases hget.symm.trans hget'
    rw [momentsOf_cons_some (Means.probed rfl).momentOf_eq]
    exact (h.effects _ _ hget).probed
  · have hnone : answerMoment e (moverOf log c) (.probe effect)
        ((SimulatedAdapter.probe shared.target effect).map ProbeResult.read) = none := if_neg he
    rw [momentsOf_answered_none hnone]
    exact h.effects e other hget'

end

/-! ## Runs -/

section
variable {hashes : Hashes} {tenantKeyProvider : TenantKeyProvider} {now : Datetime}
  {shared : Shared InMemoryStore SimulatedTarget} {log : List BrokerEvent}

/-- The store of a protocol run keeps its tables in order. -/
theorem kept_of_protocolRun {Target Decision : Type} {adapters : Adapters Target Decision}
    {target : Target} {shared : Shared InMemoryStore Target}
    (h : ProtocolRun (memoryBroker adapters) callerProtocol
      (.initial hashes tenantKeyProvider target) shared log) : shared.store.Kept := by
  induction h with
  | initial => exact InMemoryStore.kept_initial ..
  | call _ _ ih | begin _ _ _ _ _ ih | land _ _ ih | stop _ ih | disturb _ _ ih => exact ih
  | answer input _ _ _ _ ih =>
    rename_i s log c l r _ _ _ _
    rcases serve_storeCall adapters r input s with heq | ⟨call, heq⟩
    · exact heq ▸ ih
    · exact heq ▸ (InMemoryStore.serve_spec ih call).1

/-- **Every charge is accounted for**, as long as distinct operations have distinct keys. -/
theorem balanced_of_protocolRun (h : ProtocolRun (memoryBroker simulatedAdapters) callerProtocol
      (.initial hashes tenantKeyProvider (.initial now)) shared log)
    (hdistinct : shared.store.DistinctKeys) : Balanced shared log := by
  have still : ∀ {s : Shared InMemoryStore SimulatedTarget} (e : Str),
      RecordStep (s.store.records.get? e) (s.store.records.get? e) := fun _ => .same
  induction h with
  | initial =>
    exact ⟨fun _ _ hget => (nomatch hget), fun _ hkey => absurd rfl hkey⟩
  | call hrun _ ih | stop hrun ih =>
    exact (ih hdistinct).frame (coherent_of_protocolRun hrun) (kept_of_protocolRun hrun) hdistinct
      (fun _ => rfl) still fun _ => .inl rfl
  | disturb input hrun ih =>
    exact (ih hdistinct).frame (coherent_of_protocolRun hrun)
      (kept_of_protocolRun (hrun.disturb input)) hdistinct
      (SimulatedTarget.chargesForKey_congr rfl rfl) still fun _ => .inl rfl
  | @begin s log c l r hrun _ _ _ _ ih =>
    refine (ih hdistinct).frame (coherent_of_protocolRun hrun) (kept_of_protocolRun hrun) hdistinct
      (fun _ => rfl) still fun e => ?_
    cases hm : momentOf e log (.began c r) with
    | none => exact .inl (momentsOf_cons_none hm)
    | some m =>
      refine .inr ⟨m, ?_, momentsOf_cons_some hm⟩
      cases means_iff.mp hm <;> trivial
  | @land s log c r hrun _ ih =>
    refine (ih hdistinct).frame (coherent_of_protocolRun hrun) (kept_of_protocolRun hrun) hdistinct
      (fun _ => rfl) still fun e => ?_
    cases hm : momentOf e log (.landed c r) with
    | none => exact .inl (momentsOf_cons_none hm)
    | some m =>
      refine .inr ⟨m, ?_, momentsOf_cons_some hm⟩
      cases means_iff.mp hm
      trivial
  | @answer s log c l r input hrun hl hallowed ho ih =>
    have hcoherent := coherent_of_protocolRun hrun
    have hkept := kept_of_protocolRun hrun
    have hrecords : ∀ e, RecordStep (s.store.records.get? e)
        (((memoryBroker simulatedAdapters).exec r input s).2.store.records.get? e) := by
      intro e
      rcases serve_storeCall simulatedAdapters r input s with heq | ⟨call, heq⟩
      · exact heq ▸ .same
      · exact heq ▸ InMemoryStore.serve_records hkept call e
    have hbalanced := ih (hdistinct.earlier hrecords)
    -- a request of the store leaves the target alone
    have store : (∀ effect attemptId, r ≠ .dispatch effect attemptId) → (∀ effect, r ≠ .probe effect) →
        ((memoryBroker simulatedAdapters).exec r input s).2.target = s.target →
        Balanced ((memoryBroker simulatedAdapters).exec r input s).2
          (.answered c r ((memoryBroker simulatedAdapters).exec r input s).1 :: log) := by
      intro hdispatch hprobe htarget
      refine hbalanced.frame hcoherent (kept_of_protocolRun (hrun.answer input hl hallowed ho)) hdistinct
        (fun key => by rw [htarget]) hrecords fun e => ?_
      cases hm : answerMoment e (moverOf log c) r ((memoryBroker simulatedAdapters).exec r input s).1 with
      | none => exact .inl (momentsOf_answered_none hm)
      | some m =>
        exact .inr ⟨m, quiet_of_answerMoment hm hdispatch hprobe, momentsOf_answered_some hm⟩
    cases r with
    | dispatch effect attemptId =>
      have hcall := hallowed.call?_of_external rfl
      unfold Hold.call? at hcall
      split at hcall <;> cases hcall
      rename_i hhold
      exact hbalanced.dispatched hcoherent hkept hdistinct ((holdOf_eq hl).trans hhold)
    | probe effect =>
      have hcall := hallowed.call?_of_external rfl
      unfold Hold.call? at hcall
      split at hcall <;> cases hcall
      rename_i hhold
      exact hbalanced.probed hcoherent ((holdOf_eq hl).trans hhold)
    | reserve | claimDue | startAttempt | transition | get | clock | adapterFor | record =>
      exact store (fun _ _ h => nomatch h) (fun _ h => nomatch h) rfl

/-- Evidence of a dispatch or a probe reports the id in its data. -/
theorem Evidence.reported {older : List BrokerEvent} {c : Nat} {e : Str} {data : Items}
    (h : Evidence older c e data) (newer : List BrokerEvent) :
    (∃ tenantId evidence, .called c (.resolve tenantId e .succeeded evidence) ∈ older) ∨
      ∃ externalId, Reported (momentsOf e (newer ++ older)) externalId ∧
        data.get? (str "external_id") = some externalId := by
  cases h with
  | dispatched hm hid _ hx =>
    right
    exact ⟨_, .dispatched (mem_momentsOf_of_mem (List.mem_append_right _ hm) fun _ => .dispatched hid) hx,
      rfl⟩
  | probed hm hid hs hx =>
    right
    exact ⟨_, .probed (mem_momentsOf_of_mem (List.mem_append_right _ hm) fun _ => .probed hid) hs hx, rfl⟩
  | resolved hcalled => exact .inl ⟨_, _, hcalled⟩

variable {w : World Response Exc Procedure Reply (Shared InMemoryStore SimulatedTarget)}

/-- **At most one charge for each operation, and exactly one behind a success** that is not
an operator's word: the one whose id the receipt carries. -/
theorem charged_at_most_once {e : Str} {effect : EffectRecord}
    (h : (memoryBroker simulatedAdapters).Reachable
      (.initial hashes tenantKeyProvider (.initial now)) w)
    (hdistinct : w.shared.store.DistinctKeys)
    (hget : w.shared.store.records.get? e = some effect) :
    (w.shared.target.chargesForKey effect.downstreamKey).length ≤ 1 ∧
    (effect.status = .succeeded → ∃ newer older c version status data,
      w.log = newer ++ .answered c (.transition e version status data)
        (.ok effect : Except Exc EffectRecord) :: older ∧
      w.shared.store.receiptMetadata effect.tenantId e = some data ∧
      ((∃ tenantId evidence, .called c (.resolve tenantId e .succeeded evidence) ∈ older) ∨
        ∃ charge, w.shared.target.chargesForKey effect.downstreamKey = [charge] ∧
          data.get? (str "external_id") = some (.str charge.externalId))) := by
  have haccount := (balanced_of_protocolRun (reachable_runs h).1 hdistinct).effects e effect hget
  refine ⟨haccount.atMostOne, fun hstatus => ?_⟩
  obtain ⟨mover, data, ms, hms, hshown, hreceipt⟩ := success_shown h hget hstatus
  obtain ⟨newer, older, c, version, status, hlog, rfl, rfl⟩ := logged_of_moved hms
  refine ⟨newer, older, c, version, status, data, hlog, hreceipt, ?_⟩
  rw [hlog, List.append_cons] at haccount
  rcases hshown.evidence.reported (newer ++ [_]) with hresolved | ⟨externalId, hreported, hdata⟩
  · exact .inl hresolved
  right
  obtain ⟨charge, hone, rfl⟩ := haccount.reported externalId hreported
  exact ⟨charge, hone, hdata⟩

/-- A dispatch is charged and its response is lost; the redispatch finds the charge. -/
def lostResponseRun : List (Choice Procedure (Surroundings TargetSwitches)) :=
  let losing : Surroundings TargetSwitches := ⟨sampleTime 0, [], true, false, sampleTime 0⟩
  let contract := sampleContract .idempotent 0
  submitSample 0 contract losing ++ .disturb losing :: claimSample 1 (sampleTime 0) losing ++
    List.replicate 3 (.answer 1 losing) ++
    .call 2 (.reconcile (sampleBroker contract) sampleTenant (effectIdOf 1)) ::
    List.replicate 9 (.answer 2 losing) ++ .begin 2 :: List.replicate 3 (.answer 2 losing)

def lostResponseWorld : World Response Exc Procedure Reply (Shared InMemoryStore SimulatedTarget) :=
  (memoryBroker simulatedAdapters).after
    (World.initial (.initial sampleHashes sampleKeys (.initial (sampleTime 0)))) lostResponseRun

/-- A single effect has its key to itself. -/
theorem InMemoryStore.DistinctKeys.of_single {s : InMemoryStore} {item : Str × EffectRecord}
    (h : s.records.items = [item]) : s.DistinctKeys := by
  intro e e' effect effect' hget hget' _
  have hm := Dict.mem_items_of_get? hget
  have hm' := Dict.mem_items_of_get? hget'
  rw [h] at hm hm'
  cases (List.mem_singleton.mp hm).trans (List.mem_singleton.mp hm').symm
  exact ⟨rfl, rfl⟩

theorem charged_at_most_once_sample :
    let w := lostResponseWorld
    let effect := sampleEffect (sampleContract .idempotent 0) .succeeded 5
    (w.shared.target.chargesForKey effect.downstreamKey).length ≤ 1 ∧
    (effect.status = .succeeded → ∃ newer older c version status data,
      w.log = newer ++ .answered c (.transition (effectIdOf 1) version status data)
        (.ok effect : Except Exc EffectRecord) :: older ∧
      w.shared.store.receiptMetadata effect.tenantId (effectIdOf 1) = some data ∧
      ((∃ tenantId evidence, .called c (.resolve tenantId (effectIdOf 1) .succeeded evidence) ∈ older) ∨
        ∃ charge, w.shared.target.chargesForKey effect.downstreamKey = [charge] ∧
          data.get? (str "external_id") = some (.str charge.externalId))) :=
  charged_at_most_once (System.reachableFrom_after _ _ lostResponseRun)
    (.of_single (show _ = [(effectIdOf 1, sampleEffect (sampleContract .idempotent 0) .succeeded 5)] from rfl))
    rfl

end
end EffectBroker
