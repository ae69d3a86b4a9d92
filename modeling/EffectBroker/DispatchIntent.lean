import EffectBroker.EventStream

/-!
# Intent before I/O

While a dispatch is in flight the ledger holds the effect in `dispatching`, at the
version of its caller and with a row for the attempt.  So one effect has at most one
call in flight, and no attempt is used for two calls.
-/
namespace EffectBroker
open Python Concurrency

/-! ## Attempts in a life -/

/-- The moves into `dispatching`. -/
def entriesIn (moments : List Moment) : Nat :=
  moments.countP fun
    | .moved _ after _ => after.status == .dispatching
    | _ => false

theorem entriesIn_moved {mover : Mover} {after : EffectRecord} {data : Items} {ms : List Moment} :
    entriesIn (.moved mover after data :: ms) =
      entriesIn ms + if after.status == .dispatching then 1 else 0 :=
  List.countP_cons ..

/-- The attempts that dispatches have been called with. -/
def usedIn : List Moment → List Str
  | [] => []
  | .began _ attemptId :: ms => attemptId :: usedIn ms
  | _ :: ms => usedIn ms

/-- The moves into `dispatching` that have no attempt yet. -/
def Phase.unstarted : Phase → Nat
  | .held _ (.entered ..) _ => 1
  | _ => 0

/-- The attempts that no dispatch has been called with yet. -/
def Phase.unused : Phase → Nat
  | .held _ (.attempted ..) _ | .held _ (.built ..) false => 1
  | _ => 0

theorem mem_usedIn {c : Nat} {a : Str} {ms : List Moment} (h : .began c a ∈ ms) : a ∈ usedIn ms := by
  induction ms with
  | nil => cases h
  | cons m ms ih =>
    rcases List.mem_cons.mp h with rfl | h
    · exact List.mem_cons_self ..
    · have hms := ih h
      cases m with
      | began => exact List.mem_cons_of_mem _ hms
      | _ => exact hms

/-- Attempts are numbered from one, without gaps. -/
theorem attemptRows_ordinals (ms : List Moment) :
    (attemptRows ms).map Prod.fst = (List.range' 1 (attemptsIn ms)).reverse := by
  induction ms with
  | nil => rfl
  | cons m ms ih =>
    cases m with
    | attempted =>
      rw [attemptRows, List.map_cons, ih, attemptsIn_attempted, List.range'_1_concat,
        List.reverse_append, Nat.add_comm]
      rfl
    | _ => exact ih

/-- Every attempt has its own move into `dispatching`. -/
theorem Life.attempts_le_entries {e : Str} {ms : List Moment} {phase : Phase}
    (h : Life e ms phase) : attemptsIn ms + phase.unstarted ≤ entriesIn ms := by
  induction h with
  | unborn | reserved => exact Nat.le_refl 0
  | claimed _ _ _ ih => exact ih
  | @started ms effect procedure clock target data caller now _ _ _ ih =>
    have hms : attemptsIn ms ≤ entriesIn ms := ih
    have hattempts : attemptsIn (.moved ⟨caller, some procedure, clock⟩
        (movedRecord effect target now) data :: ms) = attemptsIn ms := rfl
    rw [hattempts, entriesIn_moved]
    rcases Phase.entering_cases caller procedure.route (movedRecord effect target now) with
      ⟨hs, heq⟩ | ⟨-, heq⟩ | ⟨-, heq⟩ <;> rw [heq]
    · rw [if_pos (beq_iff_eq.mpr hs)]
      exact Nat.succ_le_succ hms
    · exact hms.trans (Nat.le_add_right ..)
    · exact hms.trans (Nat.le_add_right ..)
  | attempted _ ih =>
    rw [attemptsIn_attempted]
    exact ih
  | settled _ _ _ _ _ ih =>
    rw [entriesIn_moved]
    exact (Nat.le_add_right _ _).trans (ih.trans (Nat.le_add_right ..))
  | built _ _ ih | began _ ih | landed _ ih | dispatched _ _ ih | probeBuilt _ _ ih
  | probeBegan _ ih | probed _ _ ih => exact ih

/-- A holder's attempt has its row, at the version held. -/
theorem Life.attemptRow {e : Str} {ms : List Moment} {phase : Phase} (h : Life e ms phase) :
    ∀ caller hold calling attemptId effect, phase = .held caller hold calling →
      hold.attemptId? = some attemptId → hold.record? = some effect →
      ∃ ordinal, (ordinal, (effect.version : Int), attemptId) ∈ attemptRows ms := by
  induction h with
  | unborn | reserved | claimed | settled => exact fun _ _ _ _ _ heq => nomatch heq
  | @started _ effect procedure _ target _ caller now =>
    intro _ _ _ _ _ heq ha
    rcases Phase.entering_cases caller procedure.route (movedRecord effect target now) with
      ⟨-, h⟩ | ⟨-, h⟩ | ⟨-, h⟩ <;> rw [h] at heq <;> cases heq <;> cases ha
  | attempted =>
    intro _ _ _ _ _ heq ha hr
    cases heq
    cases ha
    cases hr
    exact ⟨_, List.mem_cons_self ..⟩
  | built _ _ ih | began _ ih | landed _ ih | dispatched _ _ ih =>
    intro _ _ _ _ _ heq ha hr
    cases heq
    exact ih _ _ _ _ _ rfl ha hr
  | probeBuilt | probeBegan | probed =>
    intro _ _ _ _ _ heq ha
    cases heq
    cases ha

/-- Every call uses an attempt of its own. -/
theorem Life.used {e : Str} {ms : List Moment} {phase : Phase} (h : Life e ms phase) :
    (usedIn ms).Nodup ∧
      ∀ a ∈ usedIn ms, ∃ n, a = attemptIdOf e n ∧ n + phase.unused ≤ attemptsIn ms := by
  induction h with
  | unborn | reserved => exact ⟨List.nodup_nil, fun _ ha => nomatch ha⟩
  | claimed _ _ _ ih => exact ih
  | @started ms effect procedure clock target data caller now _ _ _ ih =>
    refine ⟨ih.1, fun a ha => ?_⟩
    obtain ⟨n, hn, hle⟩ := ih.2 a ha
    refine ⟨n, hn, ?_⟩
    rcases Phase.entering_cases caller procedure.route (movedRecord effect target now) with
      ⟨-, heq⟩ | ⟨-, heq⟩ | ⟨-, heq⟩ <;> rw [heq] <;> exact hle
  | attempted _ ih =>
    refine ⟨ih.1, fun a ha => ?_⟩
    obtain ⟨n, hn, hle⟩ := ih.2 a ha
    refine ⟨n, hn, ?_⟩
    rw [attemptsIn_attempted]
    exact Nat.succ_le_succ hle
  | began hlife ih =>
    -- the holder's attempt is the latest, and no earlier call has used it
    obtain ⟨hself, -⟩ := hlife.attemptId _ _ _ _ rfl rfl
    refine ⟨List.nodup_cons.mpr ⟨fun ha => ?_, ih.1⟩, fun a ha => ?_⟩
    · obtain ⟨n, hn, hle⟩ := ih.2 _ ha
      have := (attemptIdOf_inj (hself.symm.trans hn)).2
      simp only [Phase.unused] at hle
      omega
    · rcases List.mem_cons.mp ha with rfl | ha
      · exact ⟨_, hself, le_rfl⟩
      · obtain ⟨n, hn, hle⟩ := ih.2 a ha
        exact ⟨n, hn, (Nat.le_add_right n 1).trans hle⟩
  | dispatched _ _ ih | settled _ _ _ _ _ ih =>
    refine ⟨ih.1, fun a ha => ?_⟩
    obtain ⟨n, hn, hle⟩ := ih.2 a ha
    exact ⟨n, hn, (Nat.le_add_right n _).trans hle⟩
  | built _ _ ih | landed _ ih | probeBuilt _ _ ih | probeBegan _ ih | probed _ _ ih => exact ih

/-! ## Transitions in the ledger -/

/-- How often an effect has moved to a status, by its event stream. -/
def InMemoryStore.transitionsTo (s : InMemoryStore) (target : EffectStatus) (e : Str) : Nat :=
  (s.eventsOf e).countP fun event => event.eventType == .transition &&
    (event.data.get? (str "to")).any (Value.isStr target.value)

theorem InMemoryStore.transitionsTo_eq (s : InMemoryStore) (target : EffectStatus) (e : Str) :
    s.transitionsTo target e = (s.transitionsOf e).countP fun event =>
      (event.2.2.get? (str "to")).any (Value.isStr target.value) := by
  unfold transitionsTo transitionsOf
  rw [List.countP_map, List.countP_filter, List.countP_reverse]
  refine List.countP_congr fun event _ => ?_
  simp [Bool.and_comm]

theorem isStr_to {source status target : EffectStatus} {data : Items} :
    ((InMemoryStore.transitionData source status data).get? (str "to")).any
      (Value.isStr target.value) = (status == target) := by
  show (status.value == target.value) = _
  rw [beq_eq_decide, beq_eq_decide]
  exact decide_eq_decide.mpr EffectStatus.value_injective.eq_iff

theorem countP_transitionsIn (ms : List Moment) :
    ((transitionsIn ms).countP fun event =>
      (event.2.2.get? (str "to")).any (Value.isStr EffectStatus.dispatching.value)) =
      entriesIn ms := by
  induction ms with
  | nil => rfl
  | cons m ms ih =>
    cases m with
    | moved =>
      rw [transitionsIn, entriesIn_moved, List.countP_cons, ih]
      simp only [isStr_to]
    | _ => exact ih

section
variable {Target Decision : Type} {adapters : Adapters Target Decision} {hashes : Hashes}
  {tenantKeyProvider : TenantKeyProvider} {target : Target}
  {w : World Response Exc Procedure Reply (Shared InMemoryStore Target)}

/-- A call in flight is the call of a holder. -/
theorem Coherent.in_flight {s : InMemoryStore} {log : List BrokerEvent} (h : Coherent s log)
    {c : Nat} {dispatching : EffectRecord} {attemptId : Str}
    (ho : outstanding log c = some (.dispatch dispatching attemptId)) :
    ∃ route, Life dispatching.effectId (momentsOf dispatching.effectId log)
        (.held c (.built route dispatching attemptId (.ok ())) true) ∧
      s.records.get? dispatching.effectId = some dispatching ∧
      ∀ d ≠ c, (holdOf log d).effectId? ≠ some dispatching.effectId := by
  have hcall := h.calls c _ ho
  unfold Hold.call? at hcall
  split at hcall <;> cases hcall
  rename_i route hhold
  have hc : (holdOf log c).effectId? = some dispatching.effectId := by
    rw [hhold]
    rfl
  have hne : outstanding log c ≠ none := by
    rw [ho]
    exact Option.some_ne_none _
  obtain ⟨hlife, hrec, hother⟩ := (h.tracked dispatching.effectId).calling_holder hc hne
  rw [hhold] at hlife hrec
  exact ⟨route, hlife, hrec, hother⟩

/-- No two calls of a run use one attempt. -/
theorem attempt_used_once {c d : Nat} {first second : EffectRecord} {a b : Str}
    {newest mid oldest : List BrokerEvent}
    (h : (memoryBroker adapters).Reachable (.initial hashes tenantKeyProvider target) w)
    (hlog : w.log = newest ++ .began d (.dispatch second b) ::
      (mid ++ .began c (.dispatch first a) :: oldest)) : b ≠ a := by
  rintro rfl
  have hcoherent := reachable_coherent h
  -- an attempt belongs to one effect
  have hid : ∀ effect : EffectRecord, ∀ e, (∃ c, .began c (.dispatch effect b) ∈ w.log) →
      effect.effectId = e → ∃ n, b = attemptIdOf e n := by
    rintro effect e ⟨c, hm⟩ he
    obtain ⟨phase, hlife, -⟩ := hcoherent.tracked e
    obtain ⟨n, hn, -⟩ := hlife.used.2 b (mem_usedIn (mem_momentsOf_of_mem hm fun _ => .began he))
    exact ⟨n, hn⟩
  obtain ⟨n, hn⟩ := hid first _ ⟨c, by rw [hlog]; simp⟩ rfl
  obtain ⟨m, hm⟩ := hid second _ ⟨d, by rw [hlog]; simp⟩ rfl
  have hsame := (attemptIdOf_inj (hm.symm.trans hn)).1
  -- and its effect has used it for one call
  obtain ⟨phase, hlife, -⟩ := hcoherent.tracked second.effectId
  rw [hlog, momentsOf_append] at hlife
  obtain ⟨_, hlife, -⟩ := hlife.earlier
  rw [momentsOf_began rfl, momentsOf_append] at hlife
  have hfirst : .began c b ∈ momentsOf second.effectId
      (.began c (.dispatch first b) :: oldest : List BrokerEvent) := by
    rw [momentsOf_began hsame.symm]
    exact List.mem_cons_self ..
  exact (List.nodup_cons.mp hlife.used.1).1 (mem_usedIn (List.mem_append_right _ hfirst))

/-- **Intent is recorded before I/O, and one call is in flight.**  During a dispatch the
ledger holds the effect in `dispatching` as its caller does, with a row for the attempt;
two calls in flight are of two effects; no attempt is used twice; and attempts are
numbered `1..n`, with `n` no more than the moves into `dispatching`. -/
theorem dispatched_on_intent
    (h : (memoryBroker adapters).Reachable (.initial hashes tenantKeyProvider target) w) :
    (∀ c dispatching attemptId, outstanding w.log c = some (.dispatch dispatching attemptId) →
      w.shared.store.records.get? dispatching.effectId = some dispatching ∧
      dispatching.status = .dispatching ∧
      ∃ row ∈ w.shared.store.attemptsOf dispatching.effectId,
        row.version = dispatching.version ∧ row.attemptId = attemptId) ∧
    (∀ c d first second a b, outstanding w.log c = some (.dispatch first a) →
      outstanding w.log d = some (.dispatch second b) → first.effectId = second.effectId → c = d) ∧
    (∀ c d first second a b newest mid oldest, w.log = newest ++ .began d (.dispatch second b) ::
      (mid ++ .began c (.dispatch first a) :: oldest) → b ≠ a) ∧
    ∀ e, ((w.shared.store.attemptsOf e).map Attempt.ordinal =
        List.range' 1 (w.shared.store.attemptsOf e).length) ∧
      (w.shared.store.attemptsOf e).length ≤ w.shared.store.transitionsTo .dispatching e := by
  have hcoherent := reachable_coherent h
  refine ⟨fun c dispatching attemptId ho => ?_, fun c d first second a b hc hd he => ?_,
    fun c d first second a b newest mid oldest hlog => attempt_used_once h hlog, fun e => ?_⟩
  · obtain ⟨route, hlife, hrec, -⟩ := hcoherent.in_flight ho
    obtain ⟨_, hr, hs⟩ := hlife.fits.held _ _ _ rfl
    cases hr
    refine ⟨hrec, (Option.some.inj hs).symm, ?_⟩
    obtain ⟨ordinal, hrow⟩ := hlife.attemptRow _ _ _ _ _ rfl rfl rfl
    rw [← hcoherent.attempts, InMemoryStore.rowsOf] at hrow
    obtain ⟨row, hm, heq⟩ := List.mem_map.mp hrow
    simp only [Prod.mk.injEq] at heq
    exact ⟨row, List.mem_reverse.mp hm, by omega, heq.2.2⟩
  · obtain ⟨_, -, -, hother⟩ := hcoherent.in_flight hc
    have hcall := hcoherent.calls d _ hd
    by_contra hne
    refine hother d (Ne.symm hne) ?_
    unfold Hold.call? at hcall
    split at hcall <;> cases hcall
    rename_i hhold
    rw [hhold, he]
    rfl
  · have hlen := hcoherent.attempts_length e
    obtain ⟨phase, hlife, -⟩ := hcoherent.tracked e
    refine ⟨?_, ?_⟩
    · have hrows := congrArg (List.map Prod.fst) (hcoherent.attempts e)
      rw [attemptRows_ordinals, InMemoryStore.rowsOf, List.map_map, List.map_reverse, ← hlen] at hrows
      exact List.reverse_injective hrows
    · rw [hlen, InMemoryStore.transitionsTo_eq, streamed_of_protocolRun (reachable_runs h).1 e,
        countP_transitionsIn]
      exact (Nat.le_add_right _ _).trans hlife.attempts_le_entries

/-- A worker's dispatch of the sample effect is in flight. -/
def inFlightRun : List (Choice Procedure (Surroundings AnyAnswer)) :=
  let surroundings : Surroundings AnyAnswer :=
    ⟨sampleTime 0, [], .ok (), .error .overflowError, .error .overflowError⟩
  submitSample 0 (sampleContract .idempotent 0) surroundings ++
    claimSample 1 (sampleTime 0) surroundings

theorem dispatched_on_intent_sample :
    let s := (sampleWorld inFlightRun).shared.store
    let dispatching := sampleEffect (sampleContract .idempotent 0) .dispatching 2
    s.records.get? dispatching.effectId = some dispatching ∧ dispatching.status = .dispatching ∧
      ∃ row ∈ s.attemptsOf dispatching.effectId,
        row.version = dispatching.version ∧ row.attemptId = attemptIdOf (effectIdOf 1) 1 :=
  (dispatched_on_intent (sampleWorld_reachable inFlightRun)).1 1 _ _ rfl

end
end EffectBroker
