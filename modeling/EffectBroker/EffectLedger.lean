import Mathlib.Data.List.Range
import EffectBroker.MemoryStore

/-!
# The ledger of one effect

What every store keeps of an effect, whatever its tables look like: its record, its
lease, its attempts and its events.  Four atomic operations change it.  The stores are
compared with this model, and what it keeps invariant they keep too: above all that the
events tell the whole story of the record (`Sound`).
-/
namespace EffectBroker
open Python

/-- One effect in a ledger. -/
structure EffectLedger where
  record : EffectRecord
  lease : Option Lease
  attempts : List Attempt
  events : List MemoryEvent

namespace EffectLedger

/-- Append an event. -/
def append (l : EffectLedger) (eventType : EventType) (version : Nat) (data : Items)
    (at_ : Datetime) : EffectLedger :=
  { l with events := l.events ++
      [⟨l.record.effectId, l.events.length + 1, eventType, version, at_, data⟩] }

/-- A new effect. -/
def reserved (record : EffectRecord) : EffectLedger :=
  append ⟨record, none, [], []⟩ .reserved record.version
    [(text "status", .str record.status.value)] record.createdAt

/-- Nobody's lease excludes a claim at `now`. -/
def due (l : EffectLedger) (now : Datetime) : Bool :=
  l.record.status.isClaimable && l.lease.all (fun lease => lease.expiresAt ≤ now)

/-- Claim the effect for a worker. -/
def claimed (l : EffectLedger) (workerId : Str) (now expiresAt : Datetime) : EffectLedger :=
  append { l with record := claimedRecord l.record now, lease := some ⟨workerId, expiresAt⟩ }
    .claimed (l.record.version + 1)
    [(text "worker_id", .str workerId), (text "lease_expires_at", .str expiresAt.isoformat)] now

/-- Start the next attempt. -/
def attempted (l : EffectLedger) (workerId : Str) (now : Datetime) : EffectLedger :=
  let ordinal := l.attempts.length + 1
  let attemptId := attemptIdOf l.record.effectId ordinal
  append
    { l with attempts := l.attempts ++
        [⟨attemptId, l.record.effectId, ordinal, workerId, l.record.version, now⟩] }
    .attemptStarted l.record.version
    [(text "attempt_id", .str attemptId), (text "ordinal", .int ordinal),
      (text "worker_id", .str workerId)] now

/-- Move the effect; a lease ends with the move. -/
def moved (l : EffectLedger) (target : EffectStatus) (now : Datetime) (data : Items) :
    EffectLedger :=
  append { l with record := movedRecord l.record target now, lease := none } .transition
    (l.record.version + 1) (InMemoryStore.transitionData l.record.status target data) now

end EffectLedger

/-- An operation applies to one ledger and leaves another. -/
inductive LedgerStep : Option EffectLedger → EffectLedger → Prop
  | reserved {record} : record.status = .prepared → record.version = 0 →
      LedgerStep none (.reserved record)
  | claimed {l : EffectLedger} {workerId now expiresAt} : l.due now →
      LedgerStep (some l) (l.claimed workerId now expiresAt)
  | attempted {l : EffectLedger} {workerId now} : LedgerStep (some l) (l.attempted workerId now)
  | moved {l : EffectLedger} {target now data} : isAllowed l.record.status target →
      LedgerStep (some l) (l.moved target now data)

/-! ## The events tell the story -/

/-- What an event after the first makes of a status and a version; `none` if it cannot
follow. -/
def foldEvent (state : EffectStatus × Nat) (event : MemoryEvent) : Option (EffectStatus × Nat) :=
  match event.eventType with
  | .reserved => none
  | .claimed => some (state.1, state.2 + 1)
  | .attemptStarted => some state
  | .transition =>
    match event.data.get? (str "from"), event.data.get? (str "to") with
    | some (.str source), some (.str target) =>
      match EffectStatus.ofValue? target with
      | some target =>
        if source = state.1.value ∧ isAllowed state.1 target then some (target, state.2 + 1)
        else none
      | none => none
    | _, _ => none

/-- Fold events, each with the version it records. -/
def foldEvents : EffectStatus × Nat → List MemoryEvent → Option (EffectStatus × Nat)
  | state, [] => some state
  | state, event :: events =>
    match foldEvent state event with
    | some next => if event.version = next.2 then foldEvents next events else none
    | none => none

/-- The events are numbered from one, begin with `reserved`, and fold to the status and
the version. -/
structure TellStory (events : List MemoryEvent) (status : EffectStatus) (version : Nat) : Prop where
  numbered : events.map MemoryEvent.sequence = List.range' 1 events.length
  folds : ∃ first rest, events = first :: rest ∧ first.eventType = .reserved ∧
    first.version = 0 ∧ foldEvents (.prepared, 0) rest = some (status, version)

theorem foldEvents_append {state next : EffectStatus × Nat} {events : List MemoryEvent}
    {event : MemoryEvent} (h : foldEvents state events = some next) :
    foldEvents state (events ++ [event]) = foldEvents next [event] := by
  induction events generalizing state with
  | nil =>
    cases h
    rfl
  | cons first events ih =>
    rw [List.cons_append]
    simp only [foldEvents] at h ⊢
    cases hf : foldEvent state first with
    | none =>
      rw [hf] at h
      cases h
    | some middle =>
      rw [hf] at h
      simp only at h ⊢
      by_cases hv : first.version = middle.2
      · rw [if_pos hv] at h ⊢
        exact ih h
      · rw [if_neg hv] at h
        cases h

/-- An event advances the version by one at most. -/
theorem foldEvent_version_le {state next : EffectStatus × Nat} {event : MemoryEvent}
    (h : foldEvent state event = some next) : next.2 ≤ state.2 + 1 := by
  unfold foldEvent at h
  repeat' split at h
  all_goals cases h
  all_goals simp

theorem foldEvents_version_le {state next : EffectStatus × Nat} {events : List MemoryEvent}
    (h : foldEvents state events = some next) : next.2 ≤ state.2 + events.length := by
  induction events generalizing state with
  | nil =>
    cases h
    exact le_rfl
  | cons event events ih =>
    simp only [foldEvents] at h
    cases hevent : foldEvent state event with
    | none =>
      rw [hevent] at h
      cases h
    | some middle =>
      rw [hevent] at h
      have hmiddle := foldEvent_version_le hevent
      by_cases hversion : event.version = middle.2
      · simp only [hversion, if_true] at h
        have := ih h
        rw [List.length_cons]
        omega
      · simp only [hversion, if_false] at h
        cases h

/-- The version of a record is less than the number of its events. -/
theorem TellStory.version_lt {events : List MemoryEvent} {status : EffectStatus} {version : Nat}
    (h : TellStory events status version) : version < events.length := by
  obtain ⟨first, rest, rfl, -, -, hrest⟩ := h.folds
  have := foldEvents_version_le hrest
  rw [List.length_cons]
  omega

theorem TellStory.append {events : List MemoryEvent} {status status' : EffectStatus}
    {version version' : Nat} {event : MemoryEvent} (h : TellStory events status version)
    (hsequence : event.sequence = events.length + 1)
    (hfold : foldEvent (status, version) event = some (status', version'))
    (hversion : event.version = version') : TellStory (events ++ [event]) status' version' := by
  constructor
  · rw [List.map_append, h.numbered, List.map_singleton, List.length_append, List.length_singleton,
      List.range'_1_concat, hsequence, Nat.add_comm]
  · obtain ⟨first, rest, rfl, hfirst, hzero, hrest⟩ := h.folds
    refine ⟨first, rest ++ [event], rfl, hfirst, hzero, ?_⟩
    rw [foldEvents_append hrest]
    simp only [foldEvents, hfold, hversion, if_true]

theorem foldEvent_transition {source target : EffectStatus} {version : Nat} {data : Items}
    {event : MemoryEvent} (htype : event.eventType = .transition)
    (hdata : event.data = InMemoryStore.transitionData source target data)
    (ha : isAllowed source target = true) :
    foldEvent (source, version) event = some (target, version + 1) := by
  unfold foldEvent
  rw [htype, hdata]
  have hfrom : (InMemoryStore.transitionData source target data).get? (str "from") =
      some (.str source.value) := rfl
  have hto : (InMemoryStore.transitionData source target data).get? (str "to") =
      some (.str target.value) := rfl
  simp only [hfrom, hto, EffectStatus.ofValue?_value]
  exact if_pos ⟨trivial, ha⟩

/-- What the operations keep: the events tell the story of the record, the attempts are
numbered from one, and only effects that may be claimed have a lease. -/
structure EffectLedger.Sound (l : EffectLedger) : Prop where
  story : TellStory l.events l.record.status l.record.version
  attempts : l.attempts.map (fun row => (row.ordinal, row.attemptId)) =
    (List.range' 1 l.attempts.length).map (fun n => (n, attemptIdOf l.record.effectId n))
  lease : l.lease.isSome → l.record.status.isClaimable
  moves : ∀ event ∈ l.events, event.eventType = .transition →
    ∃ source target data, event.data = InMemoryStore.transitionData source target data

/-- What holds of all events and of one more. -/
theorem forall_mem_append_singleton {α : Type} {P : α → Prop} {list : List α} {a : α}
    (h : ∀ b ∈ list, P b) (ha : P a) : ∀ b ∈ list ++ [a], P b :=
  List.forall_mem_append.mpr ⟨h, List.forall_mem_singleton.mpr ha⟩

/-- **Every step keeps a ledger sound.** -/
theorem LedgerStep.sound {l : Option EffectLedger} {l' : EffectLedger} (h : LedgerStep l l')
    (hsound : ∀ before, l = some before → before.Sound) : l'.Sound := by
  cases h with
  | @reserved record hs hv =>
    refine ⟨⟨rfl, _, _, rfl, rfl, hv, ?_⟩, rfl, fun h => (nomatch h),
      List.forall_mem_singleton.mpr fun h => nomatch h⟩
    show some (EffectStatus.prepared, 0) = some (record.status, record.version)
    rw [hs, hv]
  | @claimed l workerId now expiresAt hd =>
    have hl := hsound l rfl
    exact ⟨hl.story.append rfl rfl rfl, hl.attempts, fun _ => (Bool.and_eq_true_iff.mp hd).1,
      forall_mem_append_singleton hl.moves fun h => nomatch h⟩
  | @attempted l workerId now =>
    have hl := hsound l rfl
    refine ⟨hl.story.append rfl rfl rfl, ?_, hl.lease,
      forall_mem_append_singleton hl.moves fun h => nomatch h⟩
    show (l.attempts ++ [_]).map _ = (List.range' 1 (l.attempts ++ [_]).length).map _
    rw [List.map_append, hl.attempts, List.length_append, List.length_singleton,
      List.range'_1_concat, List.map_append, Nat.add_comm]
    rfl
  | @moved l target now data ha =>
    have hl := hsound l rfl
    exact ⟨hl.story.append rfl (foldEvent_transition rfl rfl ha) rfl, hl.attempts,
      fun h => (nomatch h), forall_mem_append_singleton hl.moves fun _ => ⟨_, _, _, rfl⟩⟩

/-! ## What steps do to the record -/

theorem isAllowed_of_terminal {status target : EffectStatus} (h : isTerminal status = true) :
    isAllowed status target = false := by
  unfold isAllowed
  rw [(isTerminal_iff status).mp h]
  rfl

theorem not_isClaimable_of_terminal {status : EffectStatus} (h : isTerminal status = true) :
    status.isClaimable = false := by
  cases status <;> first | rfl | cases h

/-- No edge leads from one status that may be claimed to another. -/
theorem not_isClaimable_of_isAllowed {source target : EffectStatus}
    (h : isAllowed source target = true) (ht : target.isClaimable = true) :
    source.isClaimable = false := by
  revert h ht
  cases source <;> cases target <;> decide

/-- A record after a change of its effect: as it was, claimed, or moved. -/
inductive RecordStep : Option EffectRecord → Option EffectRecord → Prop
  | same {record} : RecordStep record record
  | reserved {record : EffectRecord} : record.status = .prepared → record.version = 0 →
      RecordStep none (some record)
  | claimed {record : EffectRecord} {now} : record.status.isClaimable →
      RecordStep (some record) (some (claimedRecord record now))
  | moved {record : EffectRecord} {target now} : isAllowed record.status target →
      RecordStep (some record) (some (movedRecord record target now))

theorem LedgerStep.record {l : Option EffectLedger} {l' : EffectLedger} (h : LedgerStep l l') :
    RecordStep (l.map EffectLedger.record) (some l'.record) := by
  cases h with
  | reserved hs hv => exact .reserved hs hv
  | claimed hd => exact .claimed (Bool.and_eq_true_iff.mp hd).1
  | attempted => exact .same
  | moved ha => exact .moved ha

/-- A record that keeps its version stays as it is. -/
theorem RecordStep.of_version {before after : Option EffectRecord} (h : RecordStep before after)
    (hversion : after.map EffectRecord.version = before.map EffectRecord.version) : after = before := by
  cases h with
  | same => rfl
  | reserved => cases hversion
  | claimed | moved =>
    have hsucc := Option.some.inj hversion
    exact absurd hsucc (Nat.succ_ne_self _)

/-- A terminal record stays as it is. -/
theorem RecordStep.terminal {record : EffectRecord} {after : Option EffectRecord}
    (h : RecordStep (some record) after) (ht : isTerminal record.status = true) :
    after = some record := by
  cases h with
  | same => rfl
  | claimed hc => rw [not_isClaimable_of_terminal ht] at hc; cases hc
  | moved ha => rw [isAllowed_of_terminal ht] at ha; cases ha

end EffectBroker
