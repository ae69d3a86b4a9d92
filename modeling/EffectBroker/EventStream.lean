import EffectBroker.Coherence

/-!
# The event stream records the history

The transition events of an effect in the in-memory store are exactly the moves of its
life, so a receipt shows what was recorded when the effect succeeded.
-/
namespace EffectBroker
open Python Concurrency

/-- The status that the moments lead to. -/
def statusIn : List Moment → Option EffectStatus
  | [] => none
  | .reserved effect :: _ => some effect.status
  | .moved _ after _ :: _ => some after.status
  | _ :: ms => statusIn ms

theorem Life.statusIn {e : Str} {ms : List Moment} {phase : Phase} (h : Life e ms phase) :
    statusIn ms = phase.record?.map EffectRecord.status := by
  induction h with
  | started => rw [Phase.record?_entering]; rfl
  | claimed _ _ _ ih => exact ih
  | attempted _ ih | built _ _ ih | began _ ih | landed _ ih | dispatched _ _ ih
  | probeBuilt _ _ ih | probeBegan _ ih | probed _ _ ih => exact ih
  | unborn | reserved | settled => rfl

/-- The transition events that the moments ask for, newest first: version, time and
data. -/
def transitionsIn : List Moment → List (Nat × Datetime × Items)
  | [] => []
  | .moved _ after data :: ms =>
    (after.version, after.updatedAt,
      InMemoryStore.transitionData ((statusIn ms).getD .prepared) after.status data) ::
      transitionsIn ms
  | _ :: ms => transitionsIn ms

/-- The transition events of an effect, newest first. -/
def InMemoryStore.transitionsOf (s : InMemoryStore) (e : Str) : List (Nat × Datetime × Items) :=
  ((s.eventsOf e).reverse.filter (fun event => event.eventType == .transition)).map
    fun event => (event.version, event.at_, event.data)

section
variable {s s' : InMemoryStore} {log : List BrokerEvent} {e : Str}

theorem transitionsOf_append {events : List MemoryEvent}
    (h : s'.eventsOf e = s.eventsOf e ++ events)
    (hevents : ∀ event ∈ events, event.eventType ≠ .transition) :
    s'.transitionsOf e = s.transitionsOf e := by
  have hnone : events.reverse.filter (fun event => event.eventType == .transition) = [] := by
    refine List.filter_eq_nil_iff.mpr fun event he => ?_
    simpa using hevents event (List.mem_reverse.mp he)
  unfold InMemoryStore.transitionsOf
  rw [h, List.reverse_append, List.filter_append, hnone, List.nil_append]

theorem transitionsOf_moveRecord {record : EffectRecord} {now : Datetime} {effectId : Str}
    {target : EffectStatus} {data : Items} :
    (s.moveRecord record now effectId target data).transitionsOf e =
      if e = effectId then
        (record.version + 1, now, InMemoryStore.transitionData record.status target data) ::
          s.transitionsOf effectId
      else s.transitionsOf e := by
  unfold InMemoryStore.transitionsOf
  rw [s.moveRecord_events]
  split
  · rw [List.reverse_append]
    rfl
  · rfl

/-- The event streams say what the histories say. -/
def Streamed (s : InMemoryStore) (log : List BrokerEvent) : Prop :=
  ∀ e, s.transitionsOf e = transitionsIn (momentsOf e log)

/-- A moment that is no move asks for no event. -/
theorem transitionsIn_cons {m : Moment} {ms : List Moment}
    (h : ∀ mover after data, m ≠ .moved mover after data) : transitionsIn (m :: ms) = transitionsIn ms := by
  cases m with
  | moved mover after data => exact absurd rfl (h mover after data)
  | _ => rfl

theorem transitionsIn_momentsOf {event : BrokerEvent}
    (h : ∀ e mover after data, ¬ Means e log event (.moved mover after data)) :
    transitionsIn (momentsOf e (event :: log)) = transitionsIn (momentsOf e log) := by
  cases hm : momentOf e log event with
  | none => rw [momentsOf_cons_none hm]
  | some m =>
    rw [momentsOf_cons_some hm, transitionsIn_cons]
    rintro mover after data rfl
    exact h e mover after data (means_iff.mp hm)

/-- An event that moves nothing, and leaves the transition events alone. -/
theorem Streamed.quiet (h : Streamed s log) {event : BrokerEvent}
    (hs : ∀ e, s'.transitionsOf e = s.transitionsOf e)
    (hm : ∀ e mover after data, ¬ Means e log event (.moved mover after data)) :
    Streamed s' (event :: log) := fun e => by
  rw [hs, h e, transitionsIn_momentsOf hm]

variable {Target Decision : Type} {adapters : Adapters Target Decision}

theorem Streamed.answer {shared : Shared InMemoryStore Target} (h : Streamed shared.store log)
    (hcoherent : Coherent shared.store log) {c : Nat} {r : Request}
    (surroundings : Surroundings Decision) :
    Streamed (serve memoryStore adapters r surroundings shared).2.store
      (.answered c r (serve memoryStore adapters r surroundings shared).1 :: log) := by
  cases r with
  | transition effectId expectedVersion target data =>
    rw [serve_store]
    show Streamed (shared.store.transition _ _ _ _ _).2 (.answered c (.transition effectId
      expectedVersion target data) (shared.store.transition _ _ _ _ _).1 :: log)
    rcases shared.store.transition_cases surroundings.now effectId expectedVersion target data with
      ⟨exc, heq, -⟩ | ⟨record, hget, -, -, heq⟩ <;> rw [heq]
    · exact h.quiet (fun _ => rfl) fun _ _ _ _ hm => nomatch hm
    · intro e
      rw [transitionsOf_moveRecord]
      by_cases he : e = effectId
      · subst he
        rw [if_pos rfl, momentsOf_cons_some Means.moved.momentOf_eq, transitionsIn, h e]
        obtain ⟨phase, hlife, hrec, -⟩ := hcoherent.tracked e
        rw [hlife.statusIn, ← hrec, hget]
        rfl
      · have hnone : momentOf e log (.answered c (.transition effectId expectedVersion target data)
            (.ok (movedRecord record target surroundings.now) : Except Exc EffectRecord)) = none :=
          if_neg (Ne.symm he)
        rw [if_neg he, momentsOf_cons_none hnone, h e]
  | reserve tenantId request contract =>
    rw [serve_store]
    show Streamed (shared.store.reserve _ _ _ _).2 (.answered c (.reserve tenantId request contract)
      (shared.store.reserve _ _ _ _).1 :: log)
    rcases shared.store.reserve_cases surroundings.now tenantId request contract with
      ⟨exc, next, heq, -⟩ | ⟨existing, heq, -⟩ | ⟨record, heq, hid, -⟩ <;> rw [heq]
    · exact h.quiet (fun _ => rfl) fun _ _ _ _ hm => nomatch hm
    · exact h.quiet (fun _ => rfl) fun _ _ _ _ hm => nomatch hm
    · intro e
      have hevents := InMemoryStore.insertEffect_events
        { shared.store with nextEffectId := shared.store.nextEffectId + 1 } record e
      have hquiet : transitionsIn (momentsOf e (.answered c (.reserve tenantId request contract)
          (.ok ⟨record, true, false⟩ : Except Exc Reservation) :: log)) =
          transitionsIn (momentsOf e log) :=
        transitionsIn_momentsOf fun _ _ _ _ hm => nomatch hm
      rw [hquiet]
      by_cases he : e = record.effectId
      · -- a new effect has no moments yet, and its stream only says that it was reserved
        obtain ⟨hmoments, -⟩ := (hcoherent.tracked e).unborn (he ▸ hid ▸ hcoherent.next_unused)
        rw [hmoments, InMemoryStore.transitionsOf, hevents, if_pos he]
        rfl
      · rw [if_neg he] at hevents
        exact (transitionsOf_append (hevents.trans (List.append_nil _).symm)
          (List.forall_mem_nil _)).trans (h e)
  | startAttempt effectId expectedVersion workerId =>
    rw [serve_store]
    show Streamed (shared.store.startAttempt _ _ _ _).2 (.answered c (.startAttempt effectId
      expectedVersion workerId) (shared.store.startAttempt _ _ _ _).1 :: log)
    rcases shared.store.startAttempt_cases surroundings.now effectId expectedVersion workerId with
      ⟨exc, heq⟩ | ⟨record, -, -, heq⟩ <;> rw [heq]
    · exact h.quiet (fun _ => rfl) fun _ _ _ _ hm => nomatch hm
    · refine h.quiet (fun e => ?_) fun _ _ _ _ hm => nomatch hm
      obtain ⟨events, he, hne⟩ :=
        shared.store.addAttempt_events record surroundings.now effectId workerId e
      exact transitionsOf_append he hne
  | claimDue workerId now leaseFor limit =>
    refine h.quiet (fun e => ?_) fun _ _ _ _ hm => nomatch hm
    obtain ⟨events, he, hne⟩ := (shared.store.claimDue_spec workerId now leaseFor limit).1.events e
    exact transitionsOf_append he hne
  | _ => exact h.quiet (fun _ => rfl) fun _ _ _ _ hm => nomatch hm

/-- **The event streams of protocol runs say what the histories say.** -/
theorem streamed_of_protocolRun {hashes : Hashes} {tenantKeyProvider : TenantKeyProvider}
    {target : Target} {shared : Shared InMemoryStore Target}
    (h : ProtocolRun (memoryBroker adapters) callerProtocol
      (.initial hashes tenantKeyProvider target) shared log) : Streamed shared.store log := by
  induction h with
  | initial => exact fun _ => rfl
  | answer input hrun _ _ _ ih => exact ih.answer (coherent_of_protocolRun hrun) input
  | disturb input _ ih => exact ih
  | call | begin | land | stop =>
    rename_i ih
    exact ih.quiet (fun _ => rfl) fun _ _ _ _ hm => nomatch hm

end
end EffectBroker
