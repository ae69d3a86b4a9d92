import EffectBroker.DictTotals
import EffectBroker.MemoryBook

/-!
# Counting effects in the ledger

How many effects are in a status, and how many events tell of a move into it.  Of the
requests of the broker only reservations and transitions change these numbers.
-/
namespace EffectBroker
open Python Concurrency

/-- What the metrics look at in a record. -/
def EffectRecord.face (record : EffectRecord) : EffectStatus × Str × Str × Datetime :=
  (record.status, unknownKey record)

/-- An event of a move into a status. -/
def MemoryEvent.movesInto (status : EffectStatus) (event : MemoryEvent) : Bool :=
  event.eventType == .transition && (event.data.get? (str "to")).any (Value.isStr status.value)

/-- The moves into a status among some events. -/
def movesAmong (status : EffectStatus) (events : List MemoryEvent) : Nat :=
  events.countP (·.movesInto status)

theorem movesAmong_append (status : EffectStatus) (events events' : List MemoryEvent) :
    movesAmong status (events ++ events') = movesAmong status events + movesAmong status events' :=
  List.countP_append

theorem movesAmong_of_none {status : EffectStatus} {events : List MemoryEvent}
    (h : ∀ event ∈ events, event.eventType ≠ .transition) : movesAmong status events = 0 := by
  refine List.countP_eq_zero.mpr fun event hm hmoves => h event hm ?_
  exact beq_iff_eq.mp (Bool.and_eq_true_iff.mp hmoves).1

theorem movesAmong_transition {status source target : EffectStatus} {event : MemoryEvent}
    {data : Items} (htype : event.eventType = .transition)
    (hdata : event.data = InMemoryStore.transitionData source target data) :
    movesAmong status [event] = if target = status then 1 else 0 := by
  have hto : event.data.get? (str "to") = some (.str target.value) := by
    rw [hdata]
    rfl
  have hmoves : event.movesInto status = decide (target = status) := by
    unfold MemoryEvent.movesInto
    rw [htype, hto]
    show (true && (target.value == status.value)) = _
    rw [Bool.true_and, Bool.eq_iff_iff, beq_iff_eq, decide_eq_true_iff]
    exact EffectStatus.value_injective.eq_iff
  unfold movesAmong
  rw [List.countP_singleton, hmoves]
  simp

namespace InMemoryStore
variable {s s' : InMemoryStore} {status : EffectStatus}

/-- The number of effects in a status. -/
def tally (s : InMemoryStore) (status : EffectStatus) : Nat :=
  s.records.values.countP (·.status = status)

/-- The number of events of moves into a status. -/
def movesInto (s : InMemoryStore) (status : EffectStatus) : Nat :=
  (s.events.values.map (movesAmong status)).sum

theorem weightAt_events (s : InMemoryStore) (status : EffectStatus) (e : Str) :
    s.events.weightAt (movesAmong status) e = movesAmong status (s.eventsOf e) := by
  unfold Dict.weightAt eventsOf
  cases s.events.get? e with
  | none => rfl
  | some events => rfl

/-- The weight of a record in the tally of a status. -/
def countsAs (status : EffectStatus) (record : EffectRecord) : Nat :=
  if record.status = status then 1 else 0

theorem tally_eq_total (s : InMemoryStore) (status : EffectStatus) :
    s.tally status = s.records.total (countsAs status) := by
  refine (Dict.countP_eq_total _ s.records).trans (congrArg (s.records.total ·) ?_)
  funext record
  simp [countsAs]

/-- Nothing that the metrics look at has changed. -/
structure SameFaces (s s' : InMemoryStore) : Prop where
  records : ∀ e, (s'.records.get? e).map EffectRecord.face = (s.records.get? e).map EffectRecord.face
  moves : ∀ e status, movesAmong status (s'.eventsOf e) = movesAmong status (s.eventsOf e)

theorem SameFaces.refl (s : InMemoryStore) : SameFaces s s := ⟨fun _ => rfl, fun _ _ => rfl⟩

/-- A weight that looks at the faces only. -/
theorem SameFaces.weightAt (h : SameFaces s s') {weight : EffectRecord → Nat}
    (onFace : EffectStatus × Str × Str × Datetime → Nat) (hweight : ∀ r, weight r = onFace r.face)
    (e : Str) : s'.records.weightAt weight e = s.records.weightAt weight e := by
  have hface : ∀ found : Option EffectRecord,
      found.map weight = (found.map EffectRecord.face).map onFace := by
    intro found
    rw [Option.map_map]
    exact congrArg (Option.map · found) (funext hweight)
  unfold Dict.weightAt
  rw [hface, hface, h.records]

theorem SameFaces.tally (h : SameFaces s s') (status : EffectStatus) :
    s'.tally status = s.tally status := by
  rw [tally_eq_total, tally_eq_total]
  exact Dict.total_congr fun e => h.weightAt (fun face => if face.1 = status then 1 else 0)
    (fun _ => rfl) e

theorem SameFaces.size (h : SameFaces s s') : s'.records.size = s.records.size := by
  rw [Dict.size_eq_total, Dict.size_eq_total]
  exact Dict.total_congr fun e => h.weightAt (fun _ => 1) (fun _ => rfl) e

theorem SameFaces.movesInto (h : SameFaces s s') (status : EffectStatus) :
    s'.movesInto status = s.movesInto status := by
  refine Dict.total_congr fun e => ?_
  rw [weightAt_events, weightAt_events, h.moves]

/-! ## Requests -/

/-- Claims advance versions, and nothing else of a record that the metrics look at. -/
theorem Claims.sameFaces {now : Datetime} (h : Claims s s' now) : SameFaces s s' := by
  refine ⟨fun e => ?_, fun e status => ?_⟩
  · rcases h.records e with hsame | ⟨record, hget, -, hclaimed⟩
    · rw [hsame]
    · rw [hget, hclaimed]
      rfl
  · obtain ⟨events, hevents, hnone⟩ := h.events e
    rw [hevents, movesAmong_append, movesAmong_of_none hnone, Nat.add_zero]

theorem startAttempt_sameFaces (s : InMemoryStore) (now : Datetime) (effectId : Str)
    (expectedVersion : Int) (workerId : Str) :
    SameFaces s (s.startAttempt now effectId expectedVersion workerId).2 := by
  rcases s.startAttempt_cases now effectId expectedVersion workerId with
    ⟨exc, heq⟩ | ⟨record, -, -, heq⟩ <;> rw [heq]
  · exact .refl s
  · refine ⟨fun e => rfl, fun e status => ?_⟩
    obtain ⟨events, hevents, hnone⟩ := addAttempt_events s record now effectId workerId e
    rw [hevents, movesAmong_append, movesAmong_of_none hnone, Nat.add_zero]

/-- A new effect is one more that is prepared. -/
theorem insertEffect_tallies (howned : s.Owned) {record : EffectRecord} {next : Nat}
    (hunused : s.records.get? record.effectId = none) (hprepared : record.status = .prepared) :
    let s' := { s with nextEffectId := next }.insertEffect record
    s'.records.size = s.records.size + 1 ∧
      (∀ status ≠ .prepared, s'.tally status = s.tally status) ∧
      ∀ status, s'.movesInto status = s.movesInto status := by
  intro s'
  have hrecords : ∀ e, s'.records.get? e =
      if e = record.effectId then some record else s.records.get? e := insertEffect_records _ record
  have hevents := insertEffect_events { s with nextEffectId := next } record
  -- the total of a weight grows by the weight of the new record
  have grows : ∀ weight : EffectRecord → Nat,
      s'.records.total weight = s.records.total weight + weight record := by
    intro weight
    have hupdate := @Dict.total_update _ _ _ weight s.records s'.records record.effectId fun e he => by
      unfold Dict.weightAt
      rw [hrecords, if_neg he]
    have hbefore : s.records.weightAt weight record.effectId = 0 := by
      unfold Dict.weightAt
      rw [hunused]
      rfl
    have hafter : s'.records.weightAt weight record.effectId = weight record := by
      unfold Dict.weightAt
      rw [hrecords, if_pos rfl]
      rfl
    rw [hbefore, hafter] at hupdate
    omega
  refine ⟨?_, fun status hstatus => ?_, fun status => Dict.total_congr fun e => ?_⟩
  · rw [Dict.size_eq_total, Dict.size_eq_total, grows]
  · have hzero : countsAs status record = 0 := if_neg (by rw [hprepared]; exact hstatus.symm)
    rw [tally_eq_total, tally_eq_total, grows, hzero, Nat.add_zero]
  · rw [weightAt_events, weightAt_events, hevents]
    by_cases he : e = record.effectId
    · rw [if_pos he, he, (howned _ hunused).2]
      exact movesAmong_of_none (List.forall_mem_singleton.mpr fun h => nomatch h)
    · rw [if_neg he]
      rfl

/-- A move takes an effect from one status to another, and an event tells of it. -/
theorem moveRecord_tallies {e : Str} {record : EffectRecord} (hget : s.records.get? e = some record)
    (now : Datetime) (target : EffectStatus) (data : Items) :
    let s' := s.moveRecord record now e target data
    s'.records.size = s.records.size ∧
      (∀ status, s'.tally status + (if record.status = status then 1 else 0) =
        s.tally status + if target = status then 1 else 0) ∧
      ∀ status, s'.movesInto status = s.movesInto status + if target = status then 1 else 0 := by
  intro s'
  have hrecords := moveRecord_records s record now e target data
  have hevents := moveRecord_events s record now e target data
  have moves : ∀ weight : EffectRecord → Nat, s'.records.total weight + weight record =
      s.records.total weight + weight (movedRecord record target now) := by
    intro weight
    have hupdate := @Dict.total_update _ _ _ weight s.records s'.records e fun e' he => by
      unfold Dict.weightAt
      rw [hrecords, if_neg he]
    have hbefore : s.records.weightAt weight e = weight record := by
      unfold Dict.weightAt
      rw [hget]
      rfl
    have hafter : s'.records.weightAt weight e = weight (movedRecord record target now) := by
      unfold Dict.weightAt
      rw [hrecords, if_pos rfl]
      rfl
    rwa [hbefore, hafter] at hupdate
  refine ⟨?_, fun status => ?_, fun status => ?_⟩
  · have hsize := moves fun _ => 1
    rw [Dict.size_eq_total, Dict.size_eq_total]
    omega
  · rw [tally_eq_total, tally_eq_total]
    exact moves (countsAs status)
  · have hupdate := @Dict.total_update _ _ _ (movesAmong status) s.events s'.events e fun e' he => by
      rw [weightAt_events, weightAt_events, hevents, if_neg he]
    rw [weightAt_events, weightAt_events, hevents, if_pos rfl, movesAmong_append,
      movesAmong_transition rfl rfl] at hupdate
    show s'.events.total (movesAmong status) = s.events.total (movesAmong status) + _
    omega

end InMemoryStore
end EffectBroker
