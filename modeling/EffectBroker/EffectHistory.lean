import EffectBroker.EffectLife

/-!
# The history of one effect

The moments of an effect, read off the log of a run.  What claims say about calls and
transitions in the log becomes a statement about moments here.
-/
namespace EffectBroker
open Python Concurrency

/-- The last reading of the clock by a caller. -/
def lastClock : List BrokerEvent → Nat → Option Datetime
  | [], _ => none
  | .answered caller .clock now :: log, c => if c = caller then some now else lastClock log c
  | _ :: log, c => lastClock log c

/-- The procedure that a caller runs. -/
def taskOf : List BrokerEvent → Nat → Option Procedure
  | [], _ => none
  | .called caller procedure :: log, c => if c = caller then some procedure else taskOf log c
  | _ :: log, c => taskOf log c

theorem mem_of_taskOf {log : List BrokerEvent} {c : Nat} {procedure : Procedure}
    (h : taskOf log c = some procedure) : .called c procedure ∈ log := by
  induction log with
  | nil => cases h
  | cons event log ih =>
    cases event with
    | called d task =>
      simp only [taskOf] at h
      split at h
      · rename_i hd
        cases h
        subst hd
        exact List.mem_cons_self ..
      · exact List.mem_cons_of_mem _ (ih h)
    | _ => exact List.mem_cons_of_mem _ (ih h)

/-- The caller runs `dispatch_once`. -/
def IsWorker (log : List BrokerEvent) (c : Nat) : Prop :=
  ∃ workerId now leaseFor limit, .called c (.dispatchOnce workerId now leaseFor limit) ∈ log

theorem IsWorker.of_route {log : List BrokerEvent} {c : Nat} {procedure : Procedure}
    (hc : .called c procedure ∈ log) (hr : procedure.route = .worker) : IsWorker log c := by
  cases procedure with
  | dispatchOnce workerId now leaseFor limit => exact ⟨workerId, now, leaseFor, limit, hc⟩
  | _ => cases hr

/-- A caller, as the log knows it. -/
def moverOf (log : List BrokerEvent) (c : Nat) : Mover := ⟨c, taskOf log c, lastClock log c⟩

/-- What an answer to a caller means for the effect `e`. -/
def answerMoment (e : Str) (mover : Mover) :
    (r : Request) → Response r → Option Moment
  | .reserve .., (.ok reservation : Except Exc Reservation) =>
    if reservation.created ∧ reservation.effect.effectId = e then
      some (.reserved reservation.effect)
    else none
  | .transition effectId _ _ data, (.ok after : Except Exc EffectRecord) =>
    if effectId = e then some (.moved mover after data) else none
  | .startAttempt effectId version _, (.ok attemptId : Except Exc Str) =>
    if effectId = e then some (.attempted mover.caller version attemptId) else none
  | .adapterFor effect, answer => if effect.effectId = e then some (.built mover.caller answer) else none
  | .dispatch effect attemptId, answer =>
    if effect.effectId = e then some (.dispatched mover.caller attemptId answer) else none
  | .probe effect, answer => if effect.effectId = e then some (.probed mover.caller answer) else none
  | _, _ => none

/-- What an event after `log` means for the effect `e`. -/
def momentOf (e : Str) (log : List BrokerEvent) : BrokerEvent → Option Moment
  | .answered c r response => answerMoment e (moverOf log c) r response
  | .began c (.dispatch effect attemptId) =>
    if effect.effectId = e then some (.began c attemptId) else none
  | .began c (.probe effect) => if effect.effectId = e then some (.probeBegan c) else none
  | .landed c (.dispatch effect attemptId) =>
    if effect.effectId = e then some (.landed c attemptId) else none
  | _ => none

/-- The moments of the effect `e`, newest first. -/
def momentsOf (e : Str) : List BrokerEvent → List Moment
  | [] => []
  | event :: log => (momentOf e log event).toList ++ momentsOf e log

theorem momentsOf_cons_none {e : Str} {event : BrokerEvent} {log : List BrokerEvent}
    (h : momentOf e log event = none) : momentsOf e (event :: log) = momentsOf e log := by
  rw [momentsOf, h]
  rfl

theorem momentsOf_cons_some {e : Str} {event : BrokerEvent} {log : List BrokerEvent} {m : Moment}
    (h : momentOf e log event = some m) : momentsOf e (event :: log) = m :: momentsOf e log := by
  rw [momentsOf, h]
  rfl

section
variable {e : Str} {c : Nat} {effect : EffectRecord} {attemptId : Str} {log : List BrokerEvent}

theorem momentsOf_began (h : effect.effectId = e) :
    momentsOf e (.began c (.dispatch effect attemptId) :: log) =
      .began c attemptId :: momentsOf e log :=
  momentsOf_cons_some (show momentOf _ _ _ = _ from if_pos h)

theorem momentsOf_landed (h : effect.effectId = e) :
    momentsOf e (.landed c (.dispatch effect attemptId) :: log) =
      .landed c attemptId :: momentsOf e log :=
  momentsOf_cons_some (show momentOf _ _ _ = _ from if_pos h)

theorem momentsOf_probeBegan (h : effect.effectId = e) :
    momentsOf e (.began c (.probe effect) :: log) = .probeBegan c :: momentsOf e log :=
  momentsOf_cons_some (show momentOf _ _ _ = _ from if_pos h)

end

theorem momentsOf_answered_none {e : Str} {c : Nat} {r : Request} {response : Response r}
    {log : List BrokerEvent} (h : answerMoment e (moverOf log c) r response = none) :
    momentsOf e (.answered c r response :: log) = momentsOf e log :=
  momentsOf_cons_none h

theorem momentsOf_answered_some {e : Str} {c : Nat} {r : Request} {response : Response r}
    {log : List BrokerEvent} {m : Moment}
    (h : answerMoment e (moverOf log c) r response = some m) :
    momentsOf e (.answered c r response :: log) = m :: momentsOf e log :=
  momentsOf_cons_some h

/-! ## Which events the moments come from -/

/-- What an event after `log` means for `e`, as a relation. -/
inductive Means (e : Str) (log : List BrokerEvent) : BrokerEvent → Moment → Prop where
  | reserved {c tenantId request contract} {reservation : Reservation} :
      reservation.created → reservation.effect.effectId = e →
      Means e log (.answered c (.reserve tenantId request contract)
        (.ok reservation : Except Exc Reservation)) (.reserved reservation.effect)
  | moved {c version target data} {after : EffectRecord} :
      Means e log (.answered c (.transition e version target data)
        (.ok after : Except Exc EffectRecord)) (.moved (moverOf log c) after data)
  | attempted {c version workerId} {attemptId : Str} :
      Means e log (.answered c (.startAttempt e version workerId)
        (.ok attemptId : Except Exc Str)) (.attempted c version attemptId)
  | built {c} {effect : EffectRecord} {answer : Except Exc Unit} : effect.effectId = e →
      Means e log (.answered c (.adapterFor effect) answer) (.built c answer)
  | began {c} {effect : EffectRecord} {attemptId} : effect.effectId = e →
      Means e log (.began c (.dispatch effect attemptId)) (.began c attemptId)
  | landed {c} {effect : EffectRecord} {attemptId} : effect.effectId = e →
      Means e log (.landed c (.dispatch effect attemptId)) (.landed c attemptId)
  | dispatched {c} {effect : EffectRecord} {attemptId} {answer : Except Exc DispatchReturn} :
      effect.effectId = e →
      Means e log (.answered c (.dispatch effect attemptId) answer) (.dispatched c attemptId answer)
  | probeBegan {c} {effect : EffectRecord} : effect.effectId = e →
      Means e log (.began c (.probe effect)) (.probeBegan c)
  | probed {c} {effect : EffectRecord} {answer : Except Exc ProbeReturn} : effect.effectId = e →
      Means e log (.answered c (.probe effect) answer) (.probed c answer)

section
variable {e : Str} {log newer older : List BrokerEvent} {event : BrokerEvent} {m : Moment}

theorem Means.momentOf_eq (h : Means e log event m) : momentOf e log event = some m := by
  cases h with
  | reserved hc he => exact if_pos ⟨hc, he⟩
  | moved | attempted => exact if_pos rfl
  | _ he => exact if_pos he

theorem means_of_answerMoment {c : Nat} {r : Request} {response : Response r}
    (h : answerMoment e (moverOf log c) r response = some m) :
    Means e log (.answered c r response) m := by
  unfold answerMoment at h
  split at h
  · split at h <;> cases h
    rename_i hc
    exact .reserved hc.1 hc.2
  · split at h <;> cases h
    rename_i he
    subst he
    exact .moved
  · split at h <;> cases h
    rename_i he
    subst he
    exact .attempted
  · split at h <;> cases h
    rename_i he
    exact .built he
  · split at h <;> cases h
    rename_i he
    exact .dispatched he
  · split at h <;> cases h
    rename_i he
    exact .probed he
  · cases h

theorem means_iff : momentOf e log event = some m ↔ Means e log event m := by
  refine ⟨fun h => ?_, Means.momentOf_eq⟩
  unfold momentOf at h
  split at h
  · exact means_of_answerMoment h
  · split at h <;> cases h
    rename_i he
    exact .began he
  · split at h <;> cases h
    rename_i he
    exact .probeBegan he
  · split at h <;> cases h
    rename_i he
    exact .landed he
  · cases h

/-- The event that the latest moment comes from. -/
theorem momentsOf_eq_cons {ms : List Moment} (h : momentsOf e log = m :: ms) :
    ∃ newer event older, log = newer ++ event :: older ∧ Means e older event m ∧
      momentsOf e older = ms := by
  induction log with
  | nil => cases h
  | cons event log ih =>
    cases hm : momentOf e log event with
    | none =>
      rw [momentsOf_cons_none hm] at h
      obtain ⟨newer, event', older, rfl, hmeans, hms⟩ := ih h
      exact ⟨event :: newer, event', older, rfl, hmeans, hms⟩
    | some m' =>
      rw [momentsOf_cons_some hm] at h
      cases h
      exact ⟨[], event, log, rfl, means_iff.mp hm, rfl⟩

/-- The event that a moment comes from. -/
theorem momentsOf_eq_append {ms ms' : List Moment} (h : momentsOf e log = ms' ++ m :: ms) :
    ∃ newer event older, log = newer ++ event :: older ∧ Means e older event m ∧
      momentsOf e older = ms := by
  induction ms' generalizing log with
  | nil => exact momentsOf_eq_cons h
  | cons m' ms' ih =>
    obtain ⟨newer, event, older, rfl, -, hms⟩ := momentsOf_eq_cons h
    obtain ⟨newer', event', older', rfl, hmeans, hms'⟩ := ih hms
    exact ⟨newer ++ event :: newer', event', older', by simp, hmeans, hms'⟩

/-- The moments of the newer part of a log. -/
def momentsSince (e : Str) (older : List BrokerEvent) : List BrokerEvent → List Moment
  | [] => []
  | event :: newer => (momentOf e (newer ++ older) event).toList ++ momentsSince e older newer

theorem momentsOf_append :
    momentsOf e (newer ++ older) = momentsSince e older newer ++ momentsOf e older := by
  induction newer with
  | nil => rfl
  | cons event newer ih =>
    rw [List.cons_append, momentsOf, momentsSince, ih, List.append_assoc]

theorem momentsSince_append {newest : List BrokerEvent} :
    momentsSince e older (newest ++ newer) =
      momentsSince e (newer ++ older) newest ++ momentsSince e older newer := by
  induction newest with
  | nil => rfl
  | cons event newest ih =>
    rw [List.cons_append, momentsSince, momentsSince, ih, List.append_assoc, List.append_assoc]

/-- A moment of the newer part comes from an event of it. -/
theorem mem_momentsSince (h : m ∈ momentsSince e older newer) :
    ∃ event ∈ newer, ∃ log, Means e log event m := by
  induction newer with
  | nil => cases h
  | cons event newer ih =>
    rcases List.mem_append.mp h with h | h
    · exact ⟨event, List.mem_cons_self .., _, means_iff.mp (Option.mem_toList.mp h)⟩
    · obtain ⟨event', hm, hmeans⟩ := ih h
      exact ⟨event', List.mem_cons_of_mem _ hm, hmeans⟩

/-- An event of the newer part that means a moment in every context gives that moment. -/
theorem mem_momentsSince_of_mem (h : event ∈ newer) (hm : ∀ log, Means e log event m) :
    m ∈ momentsSince e older newer := by
  induction newer with
  | nil => cases h
  | cons event' newer ih =>
    rcases List.mem_cons.mp h with rfl | h
    · rw [momentsSince, (hm _).momentOf_eq]
      exact List.mem_cons_self ..
    · exact List.mem_append_right _ (ih h)

theorem mem_momentsOf (h : m ∈ momentsOf e log) : ∃ event ∈ log, ∃ log', Means e log' event m := by
  have happ : momentsOf e log = momentsSince e [] log := by
    have h := @momentsOf_append e log []
    rwa [List.append_nil, momentsOf, List.append_nil] at h
  exact mem_momentsSince (happ ▸ h)

theorem mem_momentsOf_of_mem (h : event ∈ log) (hm : ∀ log, Means e log event m) :
    m ∈ momentsOf e log := by
  have happ : momentsOf e log = momentsSince e [] log := by
    have h := @momentsOf_append e log []
    rwa [List.append_nil, momentsOf, List.append_nil] at h
  exact happ ▸ mem_momentsSince_of_mem h hm

/-- Who moved the effect had called its procedure. -/
theorem called_of_moved {mover : Mover} {after : EffectRecord} {data : Items}
    (h : .moved mover after data ∈ momentsOf e log) {procedure : Procedure}
    (hp : mover.procedure = some procedure) : .called mover.caller procedure ∈ log := by
  obtain ⟨ms', ms, hms⟩ := List.append_of_mem h
  obtain ⟨newer, event, older, rfl, hmeans, -⟩ := momentsOf_eq_append hms
  cases hmeans with
  | moved =>
    refine List.mem_append_right _ (List.mem_cons_of_mem _ ?_)
    exact mem_of_taskOf hp

/-- What holds throughout a log holds throughout its moments. -/
theorem throughout_momentsOf {P : List BrokerEvent → BrokerEvent → Prop}
    {Q : List Moment → Moment → Prop} (h : Throughout P log)
    (hstep : ∀ older event m, Means e older event m → P older event → Q (momentsOf e older) m) :
    Throughout Q (momentsOf e log) := by
  induction log with
  | nil => trivial
  | cons event log ih =>
    cases hm : momentOf e log event with
    | none =>
      rw [momentsOf_cons_none hm]
      exact ih h.2
    | some m =>
      rw [momentsOf_cons_some hm]
      exact ⟨hstep log event m (means_iff.mp hm) h.1, ih h.2⟩

/-- Events that are told apart by what they mean are counted by the moments. -/
theorem countP_momentsOf {p : BrokerEvent → Bool} {q : Moment → Bool}
    (h : ∀ log event, p event = true ↔ ∃ m, Means e log event m ∧ q m = true)
    (log : List BrokerEvent) : log.countP p = (momentsOf e log).countP q := by
  induction log with
  | nil => rfl
  | cons event log ih =>
    cases hm : momentOf e log event with
    | none =>
      have hp : ¬p event = true := by
        intro hp
        obtain ⟨m, hmeans, -⟩ := (h log event).mp hp
        cases hm.symm.trans hmeans.momentOf_eq
      rw [List.countP_cons_of_neg hp, momentsOf_cons_none hm, ih]
    | some m =>
      rw [momentsOf_cons_some hm]
      by_cases hp : p event = true
      · obtain ⟨m', hmeans, hq⟩ := (h log event).mp hp
        cases hm.symm.trans hmeans.momentOf_eq
        rw [List.countP_cons_of_pos hp, List.countP_cons_of_pos hq, ih]
      · have hq : ¬q m = true := fun hq => hp ((h log event).mpr ⟨m, means_iff.mp hm, hq⟩)
        rw [List.countP_cons_of_neg hp, List.countP_cons_of_neg hq, ih]

end
end EffectBroker
