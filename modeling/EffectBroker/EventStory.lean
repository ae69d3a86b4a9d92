import EffectBroker.MemoryLedger
import EffectBroker.SqliteReads
import EffectBroker.System

/-!
# The event stream is the state

Folding the events of an effect gives the status and the version of its record, in every
state of the SQLite store.  In the in-memory store it does unless a claim has overflowed:
that one advances the version before it raises, and appends no event.
-/
namespace EffectBroker
open Python Concurrency Refinement

/-- An event with its type recognized. -/
def StoredEvent.typed? (event : StoredEvent) : Option MemoryEvent :=
  (EventType.ofValue? event.eventType).map fun eventType =>
    ⟨event.effectId, event.sequence, eventType, event.version, event.at_, event.data⟩

/-- The events, as they are returned, tell the story of a status and a version. -/
def StoredStory (events : List StoredEvent) (status : EffectStatus) (version : Nat) : Prop :=
  ∃ typed, events.mapM StoredEvent.typed? = some typed ∧ TellStory typed status version

theorem mapM_typed? (f : MemoryEvent → MemoryEvent) (events : List MemoryEvent) :
    (events.map fun event => (f event).stored).mapM StoredEvent.typed? = some (events.map f) := by
  induction events with
  | nil => rfl
  | cons event events ih =>
    have hevent : (f event).stored.typed? = some (f event) := by
      rw [StoredEvent.typed?, MemoryEvent.stored, EventType.ofValue?_value]
      rfl
    rw [List.map_cons, List.mapM_cons, hevent, ih]
    rfl

/-! ## The in-memory store -/

section
variable {hashes : Hashes} {tenantKeyProvider : TenantKeyProvider}

/-- The tables belong together, and each ledger is sound. -/
structure InMemoryStore.Sound (s : InMemoryStore) : Prop extends s.Kept where
  sound : ∀ e l, s.ledgerOf e = some l → l.Sound

theorem InMemoryStore.Sound.serve {s : InMemoryStore} (h : s.Sound) {c : TimedCall}
    (hc : ¬s.LeaseOverflows c) : (InMemoryStore.serve c s).2.Sound := by
  obtain ⟨hkept, hchange | ⟨hover, -⟩⟩ := InMemoryStore.serve_spec h.toKept c
  swap
  · exact absurd hover hc
  refine ⟨hkept, fun e l hl => ?_⟩
  rcases hchange e with hsame | ⟨l', hl', hstep⟩
  · exact h.sound e l (hsame ▸ hl)
  · rw [hl] at hl'
    cases hl'
    exact hstep.sound fun before hbefore => h.sound e before hbefore

theorem InMemoryStore.sound_of_run {log : List (Served InMemoryStore)} {s : InMemoryStore}
    (h : StoreRun InMemoryStore.serve (.initial hashes tenantKeyProvider) log s)
    (hcalls : EachCall (fun s c => ¬s.LeaseOverflows c) (.initial hashes tenantKeyProvider) log) :
    s.Sound := by
  refine h.invariant ⟨InMemoryStore.kept_initial .., fun e l hl => ?_⟩ hcalls fun s c hs hc =>
    hs.serve hc
  cases hl

/-- A terminal record stays, whatever is called. -/
theorem InMemoryStore.terminal_of_run {log : List (Served InMemoryStore)} {s s' : InMemoryStore}
    (hs : s.Kept) {e : Str} {record : EffectRecord} (hget : s.records.get? e = some record)
    (ht : isTerminal record.status = true) (h : StoreRun InMemoryStore.serve s log s') :
    s'.Kept ∧ s'.records.get? e = some record := by
  induction h with
  | start => exact ⟨hs, hget⟩
  | @call log s' c _ ih =>
    obtain ⟨hkept, hsame⟩ := ih
    have hstep := InMemoryStore.serve_records hkept c e
    rw [hsame] at hstep
    exact ⟨(InMemoryStore.serve_spec hkept c).1, hstep.terminal ht⟩

end

/-! ## The SQLite store -/

/-- An event as it is read, with its type still recognized. -/
def MemoryEvent.normal (event : MemoryEvent) : MemoryEvent :=
  { event with data := normalItems event.data }

/-- Reading an event from JSON changes nothing that the fold looks at. -/
theorem foldEvent_normal {event : MemoryEvent} (hmoves : event.eventType = .transition →
      ∃ source target data, event.data = InMemoryStore.transitionData source target data)
    (state : EffectStatus × Nat) : foldEvent state event.normal = foldEvent state event := by
  have htypes : event.normal.eventType = event.eventType := rfl
  unfold foldEvent
  rw [htypes]
  cases htype : event.eventType with
  | reserved | claimed | attemptStarted => rfl
  | transition =>
    obtain ⟨source, target, data, hdata⟩ := hmoves htype
    have hkeys := transitionData_keys source target data
    have hfrom : event.normal.data.get? (str "from") = some (.str source.value) := by
      rw [MemoryEvent.normal, hdata, get?_normalItems hkeys]
      rfl
    have hto : event.normal.data.get? (str "to") = some (.str target.value) := by
      rw [MemoryEvent.normal, hdata, get?_normalItems hkeys]
      rfl
    have hfrom' : event.data.get? (str "from") = some (.str source.value) := by
      rw [hdata]
      rfl
    have hto' : event.data.get? (str "to") = some (.str target.value) := by
      rw [hdata]
      rfl
    simp only [hfrom, hto, hfrom', hto']

theorem foldEvents_normal {events : List MemoryEvent}
    (h : ∀ event ∈ events, event.eventType = .transition →
      ∃ source target data, event.data = InMemoryStore.transitionData source target data)
    (state : EffectStatus × Nat) :
    foldEvents state (events.map MemoryEvent.normal) = foldEvents state events := by
  induction events generalizing state with
  | nil => rfl
  | cons event events ih =>
    obtain ⟨hmoves, hrest⟩ := List.forall_mem_cons.mp h
    simp only [List.map_cons, foldEvents, foldEvent_normal hmoves, ih hrest]
    rfl

/-- What is read tells the same story. -/
theorem TellStory.normal {events : List MemoryEvent} {status : EffectStatus} {version : Nat}
    (h : TellStory events status version)
    (hmoves : ∀ event ∈ events, event.eventType = .transition →
      ∃ source target data, event.data = InMemoryStore.transitionData source target data) :
    TellStory (events.map MemoryEvent.normal) status version := by
  refine ⟨?_, ?_⟩
  · rw [List.map_map, List.length_map]
    exact h.numbered
  · obtain ⟨first, rest, rfl, hfirst, hzero, hrest⟩ := h.folds
    refine ⟨first.normal, rest.map MemoryEvent.normal, rfl, hfirst, hzero, ?_⟩
    rw [foldEvents_normal (List.forall_mem_cons.mp hmoves).2]
    exact hrest

namespace SqliteStore
variable {secrets : Secrets} {s s' : SqliteStore} {b b' : Book} {e : Str}

theorem holds_initial (hashes : Hashes) (tenantKeyProvider : TenantKeyProvider) :
    (initial hashes tenantKeyProvider).Holds (hashes, tenantKeyProvider) [] :=
  ⟨rfl, rfl, fun _ => rfl, fun _ => rfl, ⟨⟨.nil, .nil⟩, fun _ h => nomatch h⟩, fun _ h => nomatch h⟩

/-- A call takes the book in the tables one step further at most. -/
theorem Holds.serve (h : s.Holds secrets b) {c : TimedCall} (hwf : c.WellFormed) :
    ∃ b', (SqliteStore.serve c s).2.Holds secrets b' ∧ (b' = b ∨ Book.Step b b') := by
  have hfollows := serve_follows h hwf
  have hstep : (b.serve secrets.1 secrets.2 c).2 = b ∨
      Book.Step b (b.serve secrets.1 secrets.2 c).2 := Book.serve_step h.good.toUnique c
  generalize SqliteStore.serve c s = out at hfollows
  generalize b.serve secrets.1 secrets.2 c = out' at hfollows hstep
  cases hfollows with
  | ok _ hholds => exact ⟨_, hholds, hstep⟩
  | error => exact ⟨b, h, .inl rfl⟩
  | unfit => exact ⟨b, h, .inl rfl⟩

/-- The tables of a run hold a book. -/
theorem Holds.run {log : List (Served SqliteStore)} (hs : s.Holds secrets b)
    (h : StoreRun SqliteStore.serve s log s') (hcalls : EachCall (fun _ c => c.WellFormed) s log) :
    ∃ b', s'.Holds secrets b' ∧ Relation.ReflTransGen Book.Step b b' := by
  refine h.invariant (I := fun s' => ∃ b', s'.Holds secrets b' ∧ Relation.ReflTransGen Book.Step b b')
    ⟨b, hs, .refl⟩ hcalls ?_
  rintro s c ⟨b', hholds, hsteps⟩ hwf
  obtain ⟨b'', hholds', rfl | hstep⟩ := hholds.serve hwf
  · exact ⟨b'', hholds', hsteps⟩
  · exact ⟨b'', hholds', hsteps.tail hstep⟩

end SqliteStore

theorem Book.terminal_of_steps {b b' : Book} {l : EffectLedger}
    (h : Relation.ReflTransGen Book.Step b b') (hl : l ∈ b)
    (ht : isTerminal l.record.status = true) :
    ∃ l' ∈ b', l'.record = l.record := by
  induction h with
  | refl => exact ⟨l, hl, rfl⟩
  | tail _ hstep ih =>
    obtain ⟨l', hm, hrecord⟩ := ih
    cases hstep with
    | reserve => exact ⟨l', List.mem_append_left _ hm, hrecord⟩
    | @change f hf =>
      refine ⟨f l', List.mem_map_of_mem hm, ?_⟩
      rcases hf l' hm with hsame | hchange
      · rw [hsame]
        exact hrecord
      · have hterminal : isTerminal l'.record.status = true := by
          rw [hrecord]
          exact ht
        exact (Option.some.inj (hchange.record.terminal hterminal)).trans hrecord

/-! ## The theorem -/

/-- The events of every effect tell the story of its status and its version, and a
terminal status stays. -/
def StreamsTell {σ : Type} (serve : TimedCall → σ → Except Exc StoreValue × σ)
    (accepts : TimedCall → Prop) (states : σ → Str → List (Str × Nat))
    (stream : σ → Str → Except Exc (List StoredEvent)) (s : σ) : Prop :=
  ∀ e, states s e = [] ∨ ∃ status version events,
    states s e = [(EffectStatus.value status, version)] ∧ stream s e = .ok events ∧
    StoredStory events status version ∧
    (isTerminal status = true → ∀ log s', StoreRun serve s log s' →
      EachCall (fun _ c => accepts c) s log → states s' e = [(EffectStatus.value status, version)])

/-- The status and the version of an effect. -/
def InMemoryStore.states (s : InMemoryStore) (e : Str) : List (Str × Nat) :=
  (s.records.get? e).toList.map fun record => (record.status.value, record.version)

/-- The status and the version in the rows of an effect. -/
def SqliteStore.states (s : SqliteStore) (e : Str) : List (Str × Nat) :=
  (s.effects.filter (·.effectId = e)).map fun row => (row.status, row.version)

/-- The streams of the in-memory store tell its state. -/
def InMemoryStore.StreamsTell (s : InMemoryStore) : Prop :=
  EffectBroker.StreamsTell InMemoryStore.serve (fun _ => True) InMemoryStore.states
    (fun s e => .ok ((s.eventsOf e).map MemoryEvent.stored)) s

/-- The streams of the SQLite store tell its state. -/
def SqliteStore.StreamsTell (s : SqliteStore) : Prop :=
  EffectBroker.StreamsTell SqliteStore.serve TimedCall.WellFormed SqliteStore.states
    (fun s e => (s.eventRows e).mapM SqliteEventRow.stored) s

theorem InMemoryStore.Sound.streamsTell {s : InMemoryStore} (h : s.Sound) : s.StreamsTell := by
  intro e
  cases hget : s.records.get? e with
  | none =>
    left
    rw [InMemoryStore.states, hget]
    rfl
  | some record =>
    right
    have hstory := (h.sound e _ (InMemoryStore.ledgerOf_eq hget)).story
    refine ⟨record.status, record.version, _, ?_, rfl, ?_, fun ht log s' hrun _ => ?_⟩
    · rw [InMemoryStore.states, hget]
      rfl
    · refine ⟨_, mapM_typed? id _, ?_⟩
      rw [List.map_id]
      exact hstory
    · rw [InMemoryStore.states, (InMemoryStore.terminal_of_run h.toKept hget ht hrun).2]
      rfl

theorem SqliteStore.Holds.states {s : SqliteStore} {secrets : Secrets} {b : Book}
    (h : s.Holds secrets b) {l : EffectLedger} (hl : l ∈ b) :
    s.states l.id = [(l.record.status.value, l.record.version)] := by
  have hrows : s.effects.filter (·.effectId = l.id) = [effectRow l] := by
    rw [h.effects, List.filter_map]
    exact congrArg (List.map effectRow) (Book.filter_of_nodup h.good.ids hl)
  rw [SqliteStore.states, hrows]
  rfl

theorem SqliteStore.Holds.streamsTell {s : SqliteStore} {secrets : Secrets} {b : Book}
    (h : s.Holds secrets b) : s.StreamsTell := by
  intro e
  cases hl : b.ledger e with
  | none =>
    left
    have hrows : s.effects.filter (·.effectId = e) = [] := by
      refine List.filter_eq_nil_iff.mpr fun row hrow hid => ?_
      rw [h.effects] at hrow
      obtain ⟨l, hm, rfl⟩ := List.mem_map.mp hrow
      exact Book.ledger_eq_none.mp hl l hm (of_decide_eq_true hid)
    rw [SqliteStore.states, hrows]
    rfl
  | some l =>
    right
    obtain ⟨hm, rfl⟩ := Book.mem_of_ledger hl
    have hevents : b.eventsOf l.id = l.events := by
      rw [Book.eventsOf, hl]
      rfl
    have hsound := h.good.sound l hm
    refine ⟨l.record.status, l.record.version, l.events.map readEvent, h.states hm, ?_, ?_, ?_⟩
    · show (s.eventRows l.id).mapM _ = _
      rw [h.eventRows, hevents, List.mapM_map]
      exact mapM_ok fun event hevent => stored_eventRow (h.event (hevents ▸ hevent)).1
    · exact ⟨_, mapM_typed? MemoryEvent.normal l.events, hsound.story.normal hsound.moves⟩
    · intro ht log s' hrun hcalls
      obtain ⟨b', hholds, hsteps⟩ := h.run hrun hcalls
      obtain ⟨l', hm', hrecord⟩ := Book.terminal_of_steps hsteps hm ht
      have hid : l'.id = l.id := congrArg EffectRecord.effectId hrecord
      rw [← hid, hholds.states hm', hrecord]

/-- **The event stream is the state**, in every run of the in-memory store in which no
claim overflows, and in every run of the SQLite store. -/
theorem event_stream_is_state (hashes : Hashes) (tenantKeyProvider : TenantKeyProvider) :
    (∀ log s, StoreRun InMemoryStore.serve (.initial hashes tenantKeyProvider) log s →
      EachCall (fun s c => ¬s.LeaseOverflows c) (.initial hashes tenantKeyProvider) log →
      s.StreamsTell) ∧
    ∀ log s, StoreRun SqliteStore.serve (.initial hashes tenantKeyProvider) log s →
      EachCall (fun _ c => c.WellFormed) (.initial hashes tenantKeyProvider) log →
      s.StreamsTell := by
  constructor
  · intro log s hrun hcalls
    exact (InMemoryStore.sound_of_run hrun hcalls).streamsTell
  · intro log s hrun hcalls
    obtain ⟨b, hholds, -⟩ := (SqliteStore.holds_initial hashes tenantKeyProvider).run hrun hcalls
    exact hholds.streamsTell

/-- The sample operation is reserved, claimed for a day, attempted and dispatched, and succeeds. -/
def successCalls (e : Str) : List TimedCall :=
  [⟨.transition e 2 .succeeded [], sampleTime 0, []⟩,
    ⟨.transition e 1 .dispatching [], sampleTime 0, []⟩,
    ⟨.startAttempt e 1 (str "w"), sampleTime 0, []⟩,
    ⟨.claimDue (str "w") (sampleTime 0) oneDay 1, sampleTime 0, []⟩,
    ⟨.reserve sampleTenant sampleRequest (sampleContract .unsafeClass 0), sampleTime 0, str "5eed"⟩]

/-- In runs of both stores in which the sample operation succeeds, its stream tells its state. -/
theorem event_stream_is_state_sample :
    let s := storeOf InMemoryStore.serve (.initial sampleHashes sampleKeys) (successCalls (effectIdOf 1))
    let s' := storeOf SqliteStore.serve (.initial sampleHashes sampleKeys) (successCalls (str "eff_5eed"))
    s.states (effectIdOf 1) = [(EffectStatus.succeeded.value, 3)] ∧ (s.eventsOf (effectIdOf 1)).length = 5 ∧
    s'.states (str "eff_5eed") = [(EffectStatus.succeeded.value, 3)] ∧
    (s'.eventRows (str "eff_5eed")).length = 5 ∧ s.StreamsTell ∧ s'.StreamsTell := by
  obtain ⟨hmemory, hsqlite⟩ := event_stream_is_state sampleHashes sampleKeys
  refine ⟨by decide +kernel, by decide +kernel, by decide +kernel, by decide +kernel,
    hmemory _ _ (storeRun_servedCalls _) ?_, hsqlite _ _ (storeRun_servedCalls _) ?_⟩
  · -- the claim is the only call that can overflow, and its lease ends the next day
    have hclaim : ∀ s : InMemoryStore,
        ¬s.LeaseOverflows ⟨.claimDue (str "w") (sampleTime 0) oneDay 1, sampleTime 0, []⟩ :=
      fun _ hover => nomatch hover.2.1
    exact eachCall_cons id (eachCall_cons id (eachCall_cons id (eachCall_cons (hclaim _)
      (eachCall_cons id trivial))))
  · have hdata : (Value.dict []).WellFormed := ⟨List.nodup_nil, trivial⟩
    have harguments : sampleRequest.arguments.WellFormed := ⟨List.nodup_singleton _, trivial, trivial⟩
    exact eachCall_cons hdata (eachCall_cons hdata (eachCall_cons trivial (eachCall_cons trivial
      (eachCall_cons harguments trivial))))

/-- A claim that overflows leaves a version that no event tells of. -/
theorem overflow_untold : ∃ log s,
    StoreRun InMemoryStore.serve (.initial sampleHashes sampleKeys) log s ∧ ¬s.StreamsTell := by
  have hrun : StoreRun InMemoryStore.serve (.initial sampleHashes sampleKeys) _ _ :=
    .call ⟨.claimDue (str "worker") (sampleTime 0)
        ⟨3000000 * 86400000000, by decide, by decide⟩ 1, sampleTime 0, []⟩
      (.call ⟨.reserve sampleTenant sampleRequest (sampleContract .unsafeClass 0), sampleTime 0, []⟩
        .start)
  refine ⟨_, _, hrun, fun htell => ?_⟩
  generalize hs : (InMemoryStore.serve _ (InMemoryStore.serve _ _).2).2 = s at htell
  have hstates : s.states (effectIdOf 1) = [(EffectStatus.prepared.value, 1)] := by
    rw [← hs]
    decide +kernel
  have hlength : (s.eventsOf (effectIdOf 1)).length = 1 := by
    rw [← hs]
    decide +kernel
  obtain hnone | ⟨status, version, events, hstates', hevents, ⟨typed, htyped, hstory⟩, -⟩ :=
    htell (effectIdOf 1)
  · rw [hnone] at hstates
    cases hstates
  · cases hevents
    have htold := (mapM_typed? id _).symm.trans htyped
    cases htold
    rw [hstates] at hstates'
    obtain ⟨-, hversion⟩ := Prod.mk.inj (List.cons.inj hstates').1
    have hlt := hstory.version_lt
    rw [List.map_id, hlength] at hlt
    omega

end EffectBroker
