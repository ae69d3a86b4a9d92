import EffectBroker.UnsafeEffects

/-!
# Probe before redispatch

An effect whose target can be probed is not dispatched again after a dispatch that
ended without proof, until a probe has found that nothing was committed.
-/
namespace EffectBroker
open Python Concurrency

/-- A dispatch ended without proof: with an exception other than `AdapterError`, or
without `committed=True`. -/
inductive EndsUnproved : Except Exc DispatchReturn → Prop where
  | raised {exc} : exc.isAdapterError = false → EndsUnproved (.error exc)
  | unconfirmed {result : DispatchReturn} : result.committed = .ok false →
      EndsUnproved (.ok result)
  | unread {result : DispatchReturn} {exc} : result.committed = .error exc →
      exc.isAdapterError = false → EndsUnproved (.ok result)

theorem EndsUnproved.not_proof {answer : Except Exc DispatchReturn} (h : EndsUnproved answer) :
    ¬ ProvesNonCommit answer := by
  intro hp
  cases hp with
  | raised ha =>
    cases h with
    | raised hn => simp [ha] at hn
  | read ha hr =>
    cases h with
    | unconfirmed hc =>
      rcases hr with hr | ⟨hr, -⟩ <;> rw [hc] at hr <;> cases hr
    | unread hc hn =>
      rcases hr with hr | ⟨hr, -⟩ <;> rw [hc] at hr <;> cases hr
      simp [ha] at hn

/-- Since the last conclusive probe, a dispatch has ended without a proof of
non-commit. -/
def Doubtful : List Moment → Prop
  | [] => False
  | .dispatched _ _ answer :: ms => ¬ ProvesNonCommit answer ∨ Doubtful ms
  | .probed _ (.ok result) :: ms => result.status ≠ .ok (.known .notCommitted) ∧ Doubtful ms
  | _ :: ms => Doubtful ms

/-- Where an effect that can be probed may be while there is doubt. -/
def Guarded (ms : List Moment) : Phase → Prop
  | .unborn => ¬ Doubtful ms
  | .resting effect => effect.status.isClaimable → ¬ Doubtful ms
  | .held _ (.entered route _) _ | .held _ (.attempted route _ _) _
  | .held _ (.built route _ _ _) _ => route = .worker ∧ ¬ Doubtful ms
  | .held _ (.dispatched route _ _ answer) _ =>
    route = .worker ∧ (ProvesNonCommit answer → ¬ Doubtful ms)
  | .held _ (.probed _ (.ok result)) _ =>
    result.status = .ok (.known .notCommitted) → ¬ Doubtful ms
  | .held .. => True

/-- Doubt keeps an effect that can be probed from being dispatched. -/
theorem Life.guarded {e : Str} {ms : List Moment} {phase : Phase} (h : Life e ms phase) :
    ∀ effect, phase.record? = some effect → routeUnknown effect.contract.safety = .reconciling →
      Guarded ms phase := by
  induction h with
  | unborn => exact fun _ h => nomatch h
  | reserved => exact fun _ _ _ _ h => h
  | @claimed _ effect now _ hc ih =>
    intro effect' heq hsafety
    cases heq
    exact fun _ => ih effect rfl hsafety hc
  | @started ms effect procedure clock target data caller now _ hstarts hedge ih =>
    intro effect' heq hsafety
    obtain rfl := Option.some.inj (Phase.record?_entering.symm.trans heq)
    have hguard := ih effect rfl hsafety
    have rest : target.isHeld = false → target.isClaimable = false →
        Guarded (.moved ⟨caller, some procedure, clock⟩ (movedRecord effect target now) data :: ms)
          (.entering caller procedure.route (movedRecord effect target now)) := by
      intro hheld hc
      rw [Phase.entering_of_not_held hheld]
      intro h
      rw [show (movedRecord effect target now).status = target from rfl, hc] at h
      cases h
    cases hstarts with
    | claimed hroute hc =>
      rw [Phase.entering_dispatching rfl]
      exact ⟨hroute, hguard hc⟩
    | redispatch _ hi =>
      rw [show (movedRecord effect _ now).contract = effect.contract from rfl, hi] at hsafety
      cases hsafety
    | reconcile =>
      rw [Phase.entering_reconciling rfl]
      trivial
    | review | cancel => exact rest rfl rfl
    | resolve _ _ hr => exact rest (Broker.isResolution_rests hr).1 (Broker.isResolution_rests hr).2
  | attempted _ ih | built _ _ ih | began _ ih | landed _ ih =>
    intro effect heq hsafety
    cases heq
    exact ih _ rfl hsafety
  | dispatched _ _ ih =>
    intro effect heq hsafety
    cases heq
    obtain ⟨hroute, hn⟩ := ih _ rfl hsafety
    exact ⟨hroute, fun hp hd => hd.elim (fun h => h hp) hn⟩
  | probeBuilt | probeBegan => exact fun _ _ _ => trivial
  | probed answer =>
    intro _ _ _
    cases answer with
    | error _ => trivial
    | ok result => exact fun hs hd => hd.1 hs
  | @settled ms caller hold effect procedure clock target data now hlife hr hs _ ih =>
    intro effect' heq hsafety
    cases heq
    have hguard := ih effect hr hsafety
    intro hclaimable
    cases hs with
    | committed | unbuilt | unknown | probeCommitted | probeUnknown => cases hclaimable
    | refused => exact hguard.2
    | nonCommit hp => exact hguard.2 hp
    | redispatchNonCommit => cases hguard.1
    | probeNotCommitted hs => exact hguard hs

/-- A dispatch does not begin in doubt. -/
theorem Life.not_doubtful_of_began {e : Str} {c : Nat} {a : Str} {ms : List Moment} {phase : Phase}
    (h : Life e (.began c a :: ms) phase) {effect : EffectRecord} (hr : phase.record? = some effect)
    (hs : routeUnknown effect.contract.safety = .reconciling) : ¬ Doubtful ms := by
  obtain ⟨route, effect', hlife, rfl⟩ := h.of_began rfl
  cases hr
  exact (hlife.guarded _ rfl hs).2

/-- Only a conclusive probe ends doubt. -/
theorem probed_of_not_doubtful {newer older : List Moment} (h : ¬ Doubtful (newer ++ older))
    (hd : Doubtful older) :
    ∃ c result, .probed c (.ok result) ∈ newer ∧ result.status = .ok (.known .notCommitted) := by
  induction newer with
  | nil => exact absurd hd h
  | cons m newer ih =>
    have later : ¬ Doubtful (newer ++ older) → ∃ c result, .probed c (.ok result) ∈ m :: newer ∧
        result.status = .ok (.known .notCommitted) := by
      intro hn
      obtain ⟨c, result, hm, hs⟩ := ih hn
      exact ⟨c, result, List.mem_cons_of_mem _ hm, hs⟩
    cases m with
    | dispatched c a answer => exact later fun hn => h (.inr hn)
    | probed c answer =>
      cases answer with
      | error exc => exact later h
      | ok result =>
        by_cases hs : result.status = .ok (.known .notCommitted)
        · exact ⟨c, result, List.mem_cons_self .., hs⟩
        · exact later fun hn => h ⟨hs, hn⟩
    | _ => exact later h

/-- The caller's dispatch is outstanding, or has ended and is not recorded. -/
def InCall (c : Nat) (a : Str) (phase : Phase) : Prop :=
  ∃ route effect, phase = .held c (.built route effect a (.ok ())) true ∨
    ∃ answer, phase = .held c (.dispatched route effect a answer) false

theorem split_before {α : Type} {m x : α} {ms newer older : List α}
    (h : m :: ms = newer ++ x :: older) (hm : m ≠ x) :
    ∃ rest, newer = m :: rest ∧ ms = rest ++ x :: older := by
  rcases List.cons_eq_append_iff.mp h with ⟨-, hhead⟩ | ⟨rest, hnewer, hrest⟩
  · injection hhead with hx
    exact absurd hx.symm hm
  · exact ⟨rest, hnewer, hrest⟩

/-- The caller has moved the effect nowhere. -/
def Unrecorded (c : Nat) (ms : List Moment) : Prop :=
  ∀ mover after data, mover.caller = c → .moved mover after data ∉ ms

theorem Unrecorded.tail {c : Nat} {m : Moment} {ms : List Moment} (h : Unrecorded c (m :: ms)) :
    Unrecorded c ms := fun _ _ _ hc hm => h _ _ _ hc (List.mem_cons_of_mem _ hm)

/-- A caller that has recorded no result is still in its call. -/
theorem Life.inCall_until_moved {e : Str} {c : Nat} {a : Str} {newer older all : List Moment}
    {phase : Phase} (h : Life e all phase) (hall : all = newer ++ .began c a :: older)
    (hno : Unrecorded c newer) : InCall c a phase := by
  induction h generalizing newer with
  | unborn => simp at hall
  | reserved =>
    obtain ⟨rest, -, hrest⟩ := split_before hall fun h => nomatch h
    simp at hrest
  | claimed _ _ _ ih =>
    obtain ⟨_, _, h | ⟨_, h⟩⟩ := ih hall hno <;> cases h
  | began _ ih =>
    rcases List.cons_eq_append_iff.mp hall with ⟨-, hhead⟩ | ⟨rest, rfl, hrest⟩
    · cases hhead
      exact ⟨_, _, .inl rfl⟩
    · obtain ⟨_, _, h | ⟨_, h⟩⟩ := ih hrest hno.tail <;> cases h
  | landed _ ih =>
    obtain ⟨rest, rfl, hrest⟩ := split_before hall fun h => nomatch h
    obtain ⟨_, _, h | ⟨_, h⟩⟩ := ih hrest hno.tail <;> cases h
    exact ⟨_, _, .inl rfl⟩
  | dispatched answer _ ih =>
    obtain ⟨rest, rfl, hrest⟩ := split_before hall fun h => nomatch h
    obtain ⟨_, _, h | ⟨_, h⟩⟩ := ih hrest hno.tail <;> cases h
    exact ⟨_, _, .inr ⟨answer, rfl⟩⟩
  | settled _ _ _ _ _ ih =>
    obtain ⟨rest, rfl, hrest⟩ := split_before hall fun h => nomatch h
    obtain ⟨_, _, h | ⟨_, h⟩⟩ := ih hrest hno.tail <;> cases h
    all_goals exact absurd (List.mem_cons_self ..) (hno _ _ _ rfl)
  | started _ _ _ _ _ ih | attempted _ ih | built _ _ ih | probeBuilt _ _ ih | probeBegan _ ih
  | probed _ _ ih =>
    obtain ⟨rest, rfl, hrest⟩ := split_before hall fun h => nomatch h
    obtain ⟨_, _, h | ⟨_, h⟩⟩ := ih hrest hno.tail <;> cases h

/-- While a call is not recorded, no other dispatch begins. -/
theorem Life.no_began_inCall {e : Str} {c d : Nat} {a b : Str} {newer older : List Moment}
    {phase : Phase} (h : Life e (.began d b :: (newer ++ .began c a :: older)) phase)
    (hno : Unrecorded c newer) : False := by
  obtain ⟨_, _, hlife, -⟩ := h.of_began rfl
  obtain ⟨_, _, h | ⟨_, h⟩⟩ := hlife.inCall_until_moved rfl hno <;> cases h

section
variable {Target Decision : Type} {adapters : Adapters Target Decision} {hashes : Hashes}
  {tenantKeyProvider : TenantKeyProvider} {target : Target}
  {w : World Response Exc Procedure Reply (Shared InMemoryStore Target)}

/-- How a dispatch by `c` may have ended without proof in the part `mid` of the log that
follows its beginning, and what part `since` follows its end: unproved by its answer, or
with its caller recording no result. -/
inductive EndedUnproved (c : Nat) (dispatched : EffectRecord) (attemptId : Str) :
    (mid since : List BrokerEvent) → Prop where
  | answered {since before : List BrokerEvent} {answer : Except Exc DispatchReturn} :
      EndsUnproved answer → EndedUnproved c dispatched attemptId
        (since ++ .answered c (.dispatch dispatched attemptId) answer :: before) since
  | unrecorded {mid : List BrokerEvent} :
      (∀ version target data, ∀ after : EffectRecord, .answered c
        (.transition dispatched.effectId version target data)
        (.ok after : Except Exc EffectRecord) ∉ mid) →
      EndedUnproved c dispatched attemptId mid mid

/-- **Probe before redispatch.**  Over the in-memory store, after a dispatch of an effect that can
be probed has ended without proof, it is not dispatched again before a probe has returned
`NOT_COMMITTED`. -/
theorem probed_before_redispatch {effect dispatched redispatched : EffectRecord} {c d : Nat}
    {a b : Str} {newest mid since oldest : List BrokerEvent}
    (h : (memoryBroker adapters).Reachable (.initial hashes tenantKeyProvider target) w)
    (hget : w.shared.store.records.get? dispatched.effectId = some effect)
    (hsafety : effect.contract.safety = .reconcilable ∨ effect.contract.safety = .transactional)
    (hlog : w.log = newest ++ .began d (.dispatch redispatched b) ::
      (mid ++ .began c (.dispatch dispatched a) :: oldest))
    (hsame : redispatched.effectId = dispatched.effectId)
    (hend : EndedUnproved c dispatched a mid since) :
    ∃ p probed, ∃ result : ProbeReturn, .answered p (.probe probed) (.ok result) ∈ since ∧
      probed.effectId = dispatched.effectId ∧ result.status = .ok (.known .notCommitted) := by
  have hroute : routeUnknown effect.contract.safety = .reconciling := by
    rcases hsafety with hs | hs <;> rw [hs] <;> rfl
  obtain ⟨phase, hlife, hrec, -⟩ := (reachable_coherent h).tracked dispatched.effectId
  -- the life up to the second dispatch
  rw [hlog, momentsOf_append] at hlife
  obtain ⟨earlier, hlife, hpre⟩ := hlife.earlier
  rw [momentsOf_began hsame] at hlife
  obtain ⟨_, current, hlast, rfl⟩ := hlife.of_began rfl
  obtain ⟨_, hlater, hcontract⟩ := hpre current rfl
  rw [← hrec, hget] at hlater
  cases hlater
  rw [hcontract.contract] at hroute
  have hclear := hlife.not_doubtful_of_began rfl hroute
  cases hend with
  | @answered _ before answer hunproved =>
    rw [List.append_assoc, momentsOf_append, List.cons_append] at hclear
    have hdoubt : Doubtful (momentsOf dispatched.effectId
        (.answered c (.dispatch dispatched a) answer ::
          (before ++ .began c (.dispatch dispatched a) :: oldest))) := by
      rw [momentsOf_cons_some (Means.dispatched rfl).momentOf_eq]
      exact .inl hunproved.not_proof
    obtain ⟨p, result, hm, hs⟩ := probed_of_not_doubtful hclear hdoubt
    obtain ⟨event, hevent, log, hmeans⟩ := mem_momentsSince hm
    cases hmeans with
    | probed hid => exact ⟨p, _, result, hevent, hid, hs⟩
  | unrecorded hno =>
    rw [momentsOf_append, momentsOf_began rfl] at hlife
    refine (hlife.no_began_inCall fun mover after data hc hm => ?_).elim
    obtain ⟨event, hevent, log, hmeans⟩ := mem_momentsSince hm
    cases hmeans with
    | moved =>
      obtain rfl : _ = c := hc
      exact hno _ _ _ _ hevent

/-- A dispatch times out, a probe finds nothing, and a second worker dispatches. -/
def probedRun : List (Choice Procedure (Surroundings AnyAnswer)) :=
  let surroundings : Surroundings AnyAnswer := ⟨sampleTime 0, [], .ok (),
    .error (.other (str "TimeoutError") []), .ok (ProbeResult.read ⟨.notCommitted, none, none, []⟩)⟩
  let contract := sampleContract .reconcilable 0
  submitSample 0 contract surroundings ++ claimSample 1 (sampleTime 0) surroundings ++
    List.replicate 3 (.answer 1 surroundings) ++
    .call 2 (.reconcile (sampleBroker contract) sampleTenant (effectIdOf 1)) ::
    List.replicate 4 (.answer 2 surroundings) ++ .begin 2 ::
    List.replicate 4 (.answer 2 surroundings) ++ claimSample 3 (sampleTime 0) surroundings

set_option maxRecDepth 10000 in
theorem probed_before_redispatch_sample :
    ∃ p probed, ∃ result : ProbeReturn, .answered p (.probe probed) (.ok result) ∈
        ((sampleWorld probedRun).log.drop 1).take 19 ∧
      probed.effectId = effectIdOf 1 ∧ result.status = .ok (.known .notCommitted) :=
  let contract := sampleContract .reconcilable 0
  let log := (sampleWorld probedRun).log
  let first := sampleEffect contract .dispatching 2
  have hlog : log = [] ++ .began 3 (.dispatch (sampleEffect contract .dispatching 7)
      (attemptIdOf (effectIdOf 1) 2)) :: (((log.drop 1).take 19 ++
        .answered 1 (.dispatch first (attemptIdOf (effectIdOf 1) 1))
          (.error (.other (str "TimeoutError") []) : Except Exc DispatchReturn) :: []) ++
        .began 1 (.dispatch first (attemptIdOf (effectIdOf 1) 1)) :: log.drop 22) := rfl
  probed_before_redispatch (sampleWorld_reachable probedRun)
    (Option.some_get (by decide +kernel)).symm (.inl (by decide +kernel)) hlog rfl
    (.answered (.raised rfl))

end
end EffectBroker
